import Dope.Manifold.Service.Steps

/-! # Runs of a service pool

In every reachable state a dial is in one place, the members count the dials that
claim them, and their health is what the retries, the ring and the dials say.
-/

namespace Dope.Manifold.Service

open Dope.Round Dope.Run Dope.Tally

variable {I A O P X E : Type} {n m N : Nat} {setup : Setup O n}

/-! ## Where a dial is -/

inductive Place where
  | waiting
  | front
  | submitted
  | connected
  | closed
  | givenUp
deriving DecidableEq, Repr

namespace Dials

variable {dials : Dials P n m} {line : List (Fin m)}

/-- The dials of a chain from `d` on, at most `left` of them. -/
def follow (dials : Dials P n m) : Nat → Option (Fin m) → List (Fin m)
  | 0, _ => []
  | _ + 1, none => []
  | left + 1, some d => d :: follow dials left (dials.records d).next

/-- The chain of the queue. -/
def waiting (dials : Dials P n m) : List (Fin m) :=
  dials.follow m (dials.ready.chain.map Chain.front)

/-- The place of a dial; one whose chain was given up with the queue has no other. -/
def At (dials : Dials P n m) (d : Fin m) : Place → Prop
  | .waiting => (dials.records d).state = .ready ∧ d ∈ dials.waiting ∧ dials.ready.claim d = none
  | .front => (dials.records d).state = .ready ∧
      ∃ held, dials.ready = .deferred held ∧ held.chain.front = d
  | .submitted => ∃ target, (dials.records d).state = .submitted target
  | .connected => ∃ target, (dials.records d).state = .connected target
  | .closed => (dials.records d).state = .closed
  | .givenUp => (dials.records d).state = .ready ∧ dials.ready.isRejected = true

/-- The records of a threaded list follow each other. -/
theorem Threaded.follow (h : dials.Threaded line) (rest : List (Fin m)) :
    ∀ before left, line = before ++ rest → rest.length ≤ left →
      dials.follow left rest.head? = rest := by
  induction rest with
  | nil =>
    intro before left _ _
    cases left with
    | zero | succ => rfl
  | cons d rest ih =>
    intro before left split room
    cases left with
    | zero => simp at room
    | succ left =>
      have nodup := h.nodup
      have next := h.next d (by simp [split])
      rw [split] at nodup next
      rw [Links.after_append_cons nodup] at next
      rw [List.head?_cons, Dials.follow, next,
        ih (before ++ [d]) left (by simp [split]) (by simpa using room)]

theorem Threaded.waiting_eq (h : dials.Threaded line) : dials.waiting = line := by
  have front : dials.ready.chain.map Chain.front = line.head? := by
    cases has : dials.ready.chain with
    | none =>
      rw [h.empty has]
      rfl
    | some chain => rw [(h.ends chain has).1, Option.map_some]
  have room : line.length ≤ m := by
    have le := h.nodup.length_le_card
    simpa using le
  rw [Dials.waiting, front]
  exact h.follow line [] m rfl room

theorem Inv.waiting_nodup (inv : dials.Inv) : dials.waiting.Nodup := by
  rcases inv.threaded with ⟨line, threaded, -⟩
  rw [threaded.waiting_eq]
  exact threaded.nodup

theorem Inv.place (inv : dials.Inv) (d : Fin m) : ∃! place, dials.At d place := by
  rcases inv.threaded with ⟨line, threaded, whole⟩
  cases state : (dials.records d).state with
  | submitted target =>
    refine ⟨.submitted, ⟨target, state⟩, ?_⟩
    intro place here
    cases place <;> simp_all [At]
  | connected target =>
    refine ⟨.connected, ⟨target, state⟩, ?_⟩
    intro place here
    cases place <;> simp_all [At]
  | closed =>
    refine ⟨.closed, state, ?_⟩
    intro place here
    cases place <;> simp_all [At]
  | ready =>
    cases queue : dials.ready with
    | rejected cause =>
      have gone : dials.waiting = [] := by
        rw [threaded.waiting_eq]
        exact threaded.empty (by rw [queue]; rfl)
      refine ⟨.givenUp, ⟨state, by rw [queue]; rfl⟩, ?_⟩
      intro place here
      cases place <;> simp_all [At]
    | opened chain =>
      have mem : d ∈ dials.waiting := by
        rw [threaded.waiting_eq]
        exact whole (by rw [queue]; rfl) d state
      refine ⟨.waiting, ⟨state, mem, by rw [queue]; rfl⟩, ?_⟩
      intro place here
      cases place <;> simp_all [At, Queue.isRejected]
    | deferred held =>
      have mem : d ∈ dials.waiting := by
        rw [threaded.waiting_eq]
        exact whole (by rw [queue]; rfl) d state
      by_cases front : held.chain.front = d
      · refine ⟨.front, ⟨state, held, queue, front⟩, ?_⟩
        intro place here
        cases place <;> simp_all [At, Queue.isRejected, Queue.claim]
      · refine ⟨.waiting, ⟨state, mem, by rw [queue]; exact if_neg front⟩, ?_⟩
        intro place here
        cases place <;> simp_all [At, Queue.isRejected]

end Dials

/-! ## One step -/

namespace World

variable {world world' : World I A O X E n m}

structure Inv (setup : Setup O n) (world : World I A O X E n m) : Prop where
  pool : world.pool.Inv setup
  single : world.reports.length ≤ 1
  spent : world.reports ≠ [] → world.pool.dials.Spent

/-- What a step keeps: the invariant, the members that retired and the verdict. -/
structure Keeps (setup : Setup O n) (world world' : World I A O X E n m) : Prop where
  inv : world'.Inv setup
  aged : AgedAll world.pool.membership world'.pool.membership

theorem keeps_silent (inv : world.Inv setup) {pool' : Pool I A O X n m}
    (kept : world.pool.Kept setup pool') : Keeps setup world { world with pool := pool' } where
  inv := ⟨kept.inv, inv.single, fun reported => Joined.spent kept (inv.spent reported)⟩
  aged := Joined.aged kept

theorem keeps_opening (inv : world.Inv setup) {pool' : Pool I A O X n m} {opening : Opening E}
    (kept : world.pool.Kept setup pool') (reports : Pool.Reports world.pool pool' opening) :
    Keeps setup world ⟨pool', world.reports ++ opening.report⟩ := by
  refine ⟨⟨kept.inv, ?_, ?_⟩, Joined.aged kept⟩
  · by_cases silent : opening.report = []
    · simpa [silent] using inv.single
    · have unspent := (reports.spent silent).1
      have first : world.reports = [] := by
        by_contra reported
        exact unspent (inv.spent reported)
      simpa [first] using reports.single
  · intro reported
    by_cases silent : opening.report = []
    · rw [silent, List.append_nil] at reported
      exact Joined.spent kept (inv.spent reported)
    · exact (reports.spent silent).2

theorem step_keeps [DecidableEq I] (lawful : LawfulFirst setup.first) (inv : world.Inv setup)
    (input : Input I A O X E n N) : ∃ output world',
      world.step setup input = .ok (output, world') ∧ Keeps setup world world' := by
  cases input with
  | poll now source submit =>
    rcases Pool.poll_kept lawful inv.pool now source submit with
      ⟨opening, pool', run, kept, reports⟩
    exact ⟨.opening opening, _, by simp only [step, run, ok_bind], keeps_opening inv kept reports⟩
  | trySync snapshot capacity =>
    rcases Pool.trySync_kept inv.pool snapshot capacity with ⟨result, pool', run, kept⟩
    exact ⟨.change result, _, by simp only [step, run, ok_bind], keeps_silent inv kept⟩
  | attach key source =>
    rcases Pool.attach_kept inv.pool key source with ⟨connection, pool', run, kept⟩
    exact ⟨.connection connection, _, by simp only [step, run, ok_bind], keeps_silent inv kept⟩
  | disconnect key reason now =>
    rcases Pool.disconnect_kept inv.pool key reason now with ⟨pool', run, kept⟩
    exact ⟨.done, _, by simp only [step, run, ok_bind], keeps_silent inv kept⟩
  | fail key cause now =>
    rcases Pool.fail_kept inv.pool key cause now with ⟨pool', run, kept⟩
    exact ⟨.done, _, by simp only [step, run, ok_bind], keeps_silent inv kept⟩
  | kill key cause =>
    rcases Pool.kill_kept inv.pool key cause with ⟨pool', run, kept⟩
    exact ⟨.done, _, by simp only [step, run, ok_bind], keeps_silent inv kept⟩
  | rejected key error =>
    rcases Pool.rejected_kept inv.pool key error with ⟨pool', run, kept⟩
    exact ⟨.done, _, by simp only [step, run, ok_bind], keeps_silent inv kept⟩
  | setDemand source capacity =>
    exact ⟨_, _, rfl, keeps_silent inv (Pool.setDemand_kept inv.pool source capacity)⟩
  | isRetiredAt key source =>
    exact ⟨_, _, rfl, keeps_silent inv (Pool.isRetiredAt_kept inv.pool key source)⟩
  | nextRetirement =>
    exact ⟨_, _, rfl, keeps_silent inv (Pool.nextRetirement_kept inv.pool)⟩

theorem new_sound (setup : Setup O n) (I A : Type) :
    Sound setup.authoritative (Members.new I A n) (fun _ : Fin m => (none : Option (Claim n))) where
  good _ := ⟨nofun, fun _ => ⟨rfl, nofun⟩, nofun, nofun⟩
  live _ _ _ := nofun

theorem machine_invariant [DecidableEq I] (A X E : Type) (m N : Nat)
    (lawful : LawfulFirst setup.first) :
    (machine (I := I) A X E m N setup).Invariant (Inv setup) where
  start world started := by
    rcases started with ⟨backoff, feedback, -, rfl⟩
    rcases Dials.new_spec (A × O) n m with ⟨inv, claims⟩
    refine ⟨⟨inv, ?_⟩, by simp, nofun⟩
    show Sound setup.authoritative (Members.new I A n) (Dials.new (A × O) n m).claims
    rw [claims]
    exact new_sound setup I A
  step world input inv _ := by
    rcases step_keeps lawful inv input with ⟨output, world', run, keeps⟩
    exact ⟨output, world', run, keeps.inv⟩

/-- A member that retired leaves in a step if and only if no dial claims it afterwards. -/
theorem Keeps.retired_iff (keeps : Keeps setup world world') (preserve : setup.authoritative = false)
    {key : Key n} {record : Record I A}
    (found : world.pool.membership.records.get key = some record)
    (retired : record.health.demand = none) :
    world'.pool.membership.records.get key = none ↔ owned key world'.pool.dials.claims = 0 := by
  rcases Table.get_some.mp found with ⟨named, resides⟩
  have sound := keeps.inv.pool.sound
  constructor
  · intro gone
    by_contra claimed
    rcases exists_of_tally_pos (Nat.pos_of_ne_zero claimed) with ⟨d, claim, held, names⟩
    have live := sound.live preserve d claim held
    rw [names, gone] at live
    cases live
  · intro free
    rcases keeps.aged key.slot with older | ⟨same, kept⟩
    · refine if_neg ?_
      omega
    · rcases kept record resides retired with ⟨record', resides', retired'⟩
      have rests := (sound.good key.slot).rests record' resides'
      have owners := rests.owners preserve
      have full : (⟨key.slot, (world'.pool.membership.records.slots key.slot).generation⟩ : Key n) =
          key := by rw [← same, named]
      rw [full, free] at owners
      exact absurd owners (rests.demand retired').2

end World

/-! ## Late events -/

section Late

variable {authoritative : Bool} {members members' : Members I A n} {record : Record I A}
  {claims : Fin m → Option (Claim n)} {d : Fin m} {claim : Claim n} {key : Key n}

/-- What an event of an epoch that is over changes: the owners of its member are one fewer,
and a retired member leaves with the last of them, its place in the ring and its retry. -/
structure Late (authoritative : Bool) (key : Key n) (record : Record I A)
    (members members' : Members I A n) : Prop where
  same : authoritative = true → members' = members
  elsewhere : Elsewhere key.slot members members'
  owners : authoritative = false → record.isDesired = true ∨ 1 < record.health.owners →
    members' = members.edit key.slot fun h => { h with owners := record.health.owners - 1 }
  last : authoritative = false → record.isDesired = false → record.health.owners = 1 →
    members' = { members with
      records := members.records.discard key.slot
      retries := Function.update members.retries key.slot none }

/-- A member that is removed and discarded takes nothing along but its own. -/
theorem remove_discard {i : Fin n} (run : members.remove i record = .ok members')
    (free : members'.retries i = none) :
    { members' with records := members'.records.discard i } =
      { members with
        records := members.records.discard i
        retries := Function.update members.retries i none } := by
  have kept : members.retries i = none →
      Function.update members.retries i none = members.retries :=
    fun none => none ▸ Function.update_eq_self ..
  unfold Members.remove at run
  split at run
  · cases run
    rw [kept free, Table.discard_unlink]
  · split at run
    · unfold Members.unpark at run
      split at run
      · cases run
      · split at run
        · cases run
          simp only [Members.mk.injEq, true_and, and_true]
          exact ⟨Table.discard_edit _, rfl⟩
        · cases run
    · cases run
      rw [kept free]
    · cases run
      rw [kept free]

/-- A record whose owner settled stays as it was, or leaves. -/
theorem settle_late (sound : Sound setup.authoritative members claims)
    (held : claims d = some claim) (found : members.records.get claim.target.member = some record) :
    ∃ kept members', members.settle setup claim.target.member record = .ok (kept, members') ∧
      Late setup.authoritative claim.target.member record members members' ∧
      ∀ record', kept = some record' → record'.health.generation = record.health.generation := by
  rcases sound.resident found with ⟨whole, rests, -, -⟩
  have resides : (members.records.slots claim.target.member.slot).resident = some record := by
    rw [whole]
  cases preserve : setup.authoritative with
  | true =>
    exact ⟨some record, members, by simp [Members.settle, preserve],
      ⟨fun _ => rfl, .refl _ _, (by simp), (by simp)⟩, fun record' same => by cases same; rfl⟩
  | false =>
    rw [preserve] at rests
    have positive := rests.owners_pos rfl held rfl
    rcases Nat.exists_eq_succ_of_ne_zero positive.ne' with ⟨owners, count⟩
    have written := Written.edit (fun h => { h with owners }) resides
    have slot := written.slot
    rw [whole] at slot
    simp only [Members.settle, preserve, Bool.false_eq_true, if_false, count]
    by_cases desired : record.isDesired = true
    · have stays : (record.withHealth fun h => { h with owners }).isDesired = true := desired
      simp only [stays, if_true]
      refine ⟨_, _, rfl, ⟨(by simp), written.elsewhere, fun _ _ => by simp [count], ?_⟩,
        fun record' same => by cases same; rfl⟩
      intro _ retired
      rw [desired] at retired
      cases retired
    · have retires : ¬(record.withHealth fun h => { h with owners }).isDesired = true := desired
      simp only [retires]
      by_cases last : owners = 0
      · subst last
        rcases remove_spec slot (rests.relink written.ring) rfl with
          ⟨members', record', removed, elsewhere', -, -, -, -, retries⟩
        simp only [if_true, removed, ok_bind]
        have gone := (written.elsewhere.trans elsewhere').trans (.discard _ _)
        refine ⟨none, _, rfl, ⟨(by simp), gone, ?_, ?_⟩, (by simp)⟩
        · rintro _ (stays | more)
          · exact absurd stays desired
          · omega
        · intro _ _ _
          rw [remove_discard removed retries]
          simp only [Members.edit, Table.discard_edit]
      · simp only [last, if_false]
        refine ⟨none, _, rfl, ⟨(by simp), written.elsewhere,
          fun _ _ => by simp [count], ?_⟩, (by simp)⟩
        intro _ _ one
        omega

/-- A cancellation or a failure of an epoch that is over only settles its owner. -/
theorem stale_late (sound : Sound setup.authoritative members claims) (held : claims d = some claim)
    (found : members.records.get claim.target.member = some record)
    (stale : record.health.generation ≠ claim.target.health) :
    ∃ members', members.cancel setup claim.target = .ok (.ignored, members') ∧
      (∀ backoff now, members.fail setup claim.target backoff now =
        .ok (.ignored, members', backoff)) ∧
      Late setup.authoritative claim.target.member record members members' := by
  rcases settle_late sound held found with ⟨kept, members', run, late, same⟩
  refine ⟨members', ?_, ?_, late⟩
  · simp only [Members.cancel, found, run, ok_bind]
    cases kept with
    | none => rfl
    | some record' =>
      have other : record'.health.matches_ claim.target = false := by
        simpa [Health.matches_, same record' rfl] using stale
      simp [Members.cancelProbe, other]
  · intro backoff now
    simp only [Members.fail, found, run, ok_bind]
    cases kept with
    | none => rfl
    | some record' =>
      have other : record'.health.matches_ claim.target = false := by
        simpa [Health.matches_, same record' rfl] using stale
      simp [Members.tryFailure, other]

/-- A member that is chosen was scheduled, or its retry was due. -/
theorem choose_due (now : Nat) (lawful : LawfulFirst setup.first)
    (sound : Sound setup.authoritative members claims) (eligible : I → Bool) {target : Target n}
    {addr : A} (run : members.choose setup now eligible = .ok (.ready target addr, members')) :
    target.member.slot ∈ members.records.ring ∨ ∃ generation due,
      members.retries target.member.slot = some (generation, due) ∧ due ≤ now := by
  rcases promote_spec now lawful sound with ⟨promoted, promoting, run', -, -, ring⟩
  rcases skip_spec eligible promoting.desired promoting.records with ⟨-, order⟩
  simp only [Members.choose, run', ok_bind] at run
  cases promoted with
  | error => cases run
  | ok =>
    dsimp only at run
    cases turn : (if (Members.skip eligible promoting.desired promoting.records).1 ≠ 0 then
        (Members.skip eligible promoting.desired promoting.records).2.turn else none) with
    | none =>
      rw [turn] at run
      dsimp only at run
      split at run
      · cases run
      · cases run
    | some entry =>
      rw [turn] at run
      cases run
      have turned : (Members.skip eligible promoting.desired promoting.records).2.turn =
          some entry := by
        by_cases some : (Members.skip eligible promoting.desired promoting.records).1 ≠ 0
        · rwa [if_pos some] at turn
        · rw [if_neg some] at turn
          cases turn
      exact ring _ ((order _).mp (Table.turn_some turned).1)

end Late

/-! ## Main results -/

/-- In every reachable state each dial is in one place, and given up only with a rejected
queue; `active` counts the dials that were submitted or connected; without authority the
owners of a record are the dials that claim it, and a retired member leaves exactly when
its last owner settles; and at most one permanent failure is reported, an exhaustion only
when no dial is active. -/
theorem Pool.reachable_owns [DecidableEq I] (A X E : Type) (m N : Nat) (setup : Setup O n)
    (lawful : LawfulFirst setup.first) {world : World I A O X E n m}
    (reached : (machine A X E m N setup).Reachable world) :
    (world.pool.dials.waiting.Nodup ∧ ∀ d, ∃! place, world.pool.dials.At d place) ∧
    world.pool.dials.active = tally (fun _ => True) world.pool.dials.targets ∧
    (setup.authoritative = false → ∀ key record,
      world.pool.membership.records.get key = some record →
        record.health.owners = owned key world.pool.dials.claims) ∧
    -- No input faults, and the last owner of a retired member takes it along.
    (∀ input : Input I A O X E n N, ∃ output world',
      world.step setup input = .ok (output, world') ∧
      (setup.authoritative = false → ∀ key record,
        world.pool.membership.records.get key = some record → record.health.demand = none →
        0 < owned key world.pool.dials.claims ∧
          (world'.pool.membership.records.get key = none ↔
            owned key world'.pool.dials.claims = 0))) ∧
    world.reports.length ≤ 1 ∧
    ∀ now source (submit : Id → A × O → Attempt (A × O) E) attempt error pool',
      world.pool.poll setup now source submit = .ok (.failed attempt error, pool') →
      world.reports = [] ∧ ((∀ cause, error ≠ .wire cause) → world.pool.dials.active = 0) := by
  have inv := (World.machine_invariant A X E m N lawful).holds reached
  have owners : setup.authoritative = false → ∀ key record,
      world.pool.membership.records.get key = some record →
        record.health.owners = owned key world.pool.dials.claims := by
    intro preserve key record found
    rcases Table.get_some.mp found with ⟨named, resides⟩
    have rests := (inv.pool.sound.good key.slot).rests record resides
    rw [named] at rests
    exact rests.owners preserve
  refine ⟨⟨inv.pool.dials.waiting_nodup, inv.pool.dials.place⟩, inv.pool.dials.active, owners, ?_,
    inv.single, ?_⟩
  · intro input
    rcases World.step_keeps lawful inv input with ⟨output, world', run, keeps⟩
    refine ⟨output, world', run, ?_⟩
    intro preserve key record found retired
    refine ⟨?_, keeps.retired_iff preserve found retired⟩
    rcases Table.get_some.mp found with ⟨named, resides⟩
    have rests := (inv.pool.sound.good key.slot).rests record resides
    rw [← owners preserve key record found]
    exact Nat.pos_of_ne_zero (rests.demand retired).2
  · intro now source submit attempt error pool' run
    rcases Pool.poll_kept lawful inv.pool now source submit with
      ⟨opening, pool'', run', -, reports⟩
    rw [run] at run'
    cases run'
    refine ⟨?_, reports.idle attempt error rfl⟩
    by_contra reported
    have unspent := (reports.spent (by simp [Opening.report])).1
    exact unspent (inv.spent reported)

/-- In every reachable state a member has a retry exactly when its record is unscheduled and
backs off, so that no access to a retry or its record faults; a desired member that is probed
has one dial of its health generation, which did not connect; a cancellation or failure of
another generation settles an owner and changes nothing else; and no member that backs off is
chosen before its retry. -/
theorem Pool.reachable_schedules [DecidableEq I] (A X E : Type) (m N : Nat) (setup : Setup O n)
    (lawful : LawfulFirst setup.first) {world : World I A O X E n m}
    (reached : (machine A X E m N setup).Reachable world) :
    (∀ key : Key n, (∃ due, world.pool.membership.retries key.slot = some (key.generation, due)) ↔
      ∃ record, world.pool.membership.records.get key = some record ∧
        key.slot ∉ world.pool.membership.records.ring ∧ record.health.idle = .backoff) ∧
    (∀ input : Input I A O X E n N, ∃ output world',
      world.step setup input = .ok (output, world')) ∧
    (∀ key record, world.pool.membership.records.get key = some record →
      record.isDesired = true → record.health.idle = .probing →
      ∃ d, world.pool.dials.claims d = some ⟨⟨key, record.health.generation⟩, false⟩ ∧
        ∀ e claim, world.pool.dials.claims e = some claim →
          claim.target = ⟨key, record.health.generation⟩ → e = d) ∧
    (∀ d claim record, world.pool.dials.claims d = some claim →
      world.pool.membership.records.get claim.target.member = some record →
      record.health.generation ≠ claim.target.health →
      ∃ members', world.pool.membership.cancel setup claim.target = .ok (.ignored, members') ∧
        (∀ backoff now, world.pool.membership.fail setup claim.target backoff now =
          .ok (.ignored, members', backoff)) ∧
        Late setup.authoritative claim.target.member record world.pool.membership members') ∧
    ∀ now eligible target addr members' generation due,
      world.pool.membership.choose setup now eligible = .ok (.ready target addr, members') →
      world.pool.membership.retries target.member.slot = some (generation, due) → due ≤ now := by
  have inv := (World.machine_invariant A X E m N lawful).holds reached
  have sound := inv.pool.sound
  refine ⟨?_, ?_, ?_, ?_, ?_⟩
  · intro key
    constructor
    · rintro ⟨due, retry⟩
      rcases sound.retry retry with ⟨record, found, idle, out⟩
      exact ⟨record, found, out, idle⟩
    · rintro ⟨record, found, -, idle⟩
      rcases sound.resident found with ⟨-, rests, -, -⟩
      exact rests.retry_some idle
  · intro input
    rcases World.step_keeps lawful inv input with ⟨output, world', run, -⟩
    exact ⟨output, world', run⟩
  · intro key record found desired probing
    rcases sound.resident found with ⟨-, -, probed, -⟩
    refine probed ?_ probing
    rw [Record.isDesired, Option.isSome_iff_ne_none] at desired
    exact desired
  · intro d claim record held found stale
    exact stale_late sound held found stale
  · intro now eligible target addr members' generation due run retry
    rcases choose_due now lawful sound eligible run with linked | ⟨generation', due', retry', early⟩
    · rcases sound.retry retry with ⟨-, -, -, out⟩
      exact absurd linked out
    · rw [retry] at retry'
      cases retry'
      exact early

section Examples

/-- One member, under the Preserve policy. -/
def Setup.single : Setup Unit 1 := ⟨false, (), 1000, 3, 3, least⟩

def Plan.single : Plan :=
  ⟨⟨1, by decide⟩, ⟨1, by decide⟩, Nat.one_pos, Nat.one_pos⟩

def Snapshot.single : Snapshot Nat Nat 1 := ⟨1, [⟨7, 9⟩], by simp⟩

/-- A pool that took its only snapshot. -/
def World.synced (m : Nat) : World Nat Nat Unit Unit Unit 1 m :=
  ⟨((Pool.new (X := Unit) Setup.single Nat Nat m ⟨Plan.single, 0⟩ .silent).trySync
    Setup.single Snapshot.single 1).toOption.elim
      (.new Setup.single Nat Nat m ⟨Plan.single, 0⟩ .silent) Prod.snd, []⟩

theorem World.synced_reachable (m : Nat) :
    (machine Nat Unit Unit m 1 Setup.single).Reachable (World.synced m) := by
  have started : (machine (I := Nat) Nat Unit Unit m 1 Setup.single).Reachable
      ⟨.new Setup.single Nat Nat m ⟨Plan.single, 0⟩ .silent, []⟩ :=
    .start ⟨_, _, .inl rfl, rfl⟩
  exact started.call (.trySync Snapshot.single 1) trivial rfl

def Source.all : Source Nat := ⟨true, fun _ => true, fun _ => true⟩

/-- A wire failure is reported while another dial is active, and the dials behind it
are neither waiting nor closed from then on. -/
theorem Pool.reachable_owns_fails :
    ∃ before after attempt,
      (machine Nat Unit Unit 3 1 Setup.single).Reachable before ∧
      before.step (N := 1) Setup.single (.poll 0 Source.all fun _ _ => .failed (.wire ())) =
        .ok (.opening (.failed attempt (.wire ())), after) ∧
      before.pool.dials.active = 1 ∧
      ∃ d, ∀ place, place ≠ .givenUp → ¬after.pool.dials.At d place := by
  have synced := World.synced_reachable 3
  have submitted := synced.call (.poll 0 Source.all fun _ _ => .submitted) trivial rfl
  refine ⟨_, _, ⟨1, 0⟩, submitted, rfl, rfl, 2, ?_⟩
  intro place other here
  cases place with
  | givenUp => exact other rfl
  | waiting => cases here.2.1
  | front =>
      rcases here with ⟨-, held, queue, -⟩
      cases queue
  | submitted | connected =>
      rcases here with ⟨target, state⟩
      cases state
  | closed => cases here

/-- A pool of two dials that are both submitted for its only member. -/
theorem World.submitted_reachable :
    ∃ world : World Nat Nat Unit Unit Unit 1 2,
      (machine Nat Unit Unit 2 1 Setup.single).Reachable world ∧
      world.pool.dials.claims 0 = some ⟨⟨⟨0, 0⟩, 0⟩, false⟩ ∧
      world.pool.dials.claims 1 = some ⟨⟨⟨0, 0⟩, 0⟩, false⟩ ∧
      world.pool.membership.records.get ⟨0, 0⟩ =
        some ⟨7, 9, { Health.new with owners := 2 }⟩ := by
  have synced := World.synced_reachable 2
  have first := synced.call (.poll 0 Source.all fun _ _ => .submitted) trivial rfl
  have second := first.call (.poll 0 Source.all fun _ _ => .submitted) trivial rfl
  exact ⟨_, second, rfl, rfl, rfl⟩

/-- Two dials own the only member. -/
theorem Pool.reachable_owns_example :
    ∃ world : World Nat Nat Unit Unit Unit 1 2,
      (machine Nat Unit Unit 2 1 Setup.single).Reachable world ∧
      (∀ d, ∃! place, world.pool.dials.At d place) ∧ owned ⟨0, 0⟩ world.pool.dials.claims = 2 := by
  rcases World.submitted_reachable with ⟨world, reached, -, -, found⟩
  have owns := Pool.reachable_owns Nat Unit Unit 2 1 Setup.single least_lawful reached
  exact ⟨world, reached, owns.1.2, (owns.2.2.1 rfl _ _ found).symm⟩

/-- A dial connects; the failure of the other is late, and still takes an owner away. -/
theorem Pool.reachable_schedules_fails :
    ∃ (world : World Nat Nat Unit Unit Unit 1 2) (d : Fin 2) (claim : Claim 1)
      (record : Record Nat Nat) (members' : Members Nat Nat 1),
      (machine Nat Unit Unit 2 1 Setup.single).Reachable world ∧
      world.pool.dials.claims d = some claim ∧
      world.pool.membership.records.get claim.target.member = some record ∧
      record.health.generation ≠ claim.target.health ∧
      world.pool.membership.fail Setup.single claim.target world.pool.backoff 0 =
        .ok (.ignored, members', world.pool.backoff) ∧
      members' ≠ world.pool.membership := by
  have synced := World.synced_reachable 2
  have first := synced.call (.poll 0 Source.all fun _ _ => .submitted) trivial rfl
  have second := first.call (.poll 0 Source.all fun _ _ => .submitted) trivial rfl
  have attached := second.call (.attach ⟨0, 0⟩ Source.all) trivial rfl
  refine ⟨_, 1, ⟨⟨⟨0, 0⟩, 0⟩, false⟩, _, _, attached, rfl, rfl, by decide, rfl, ?_⟩
  intro same
  have owners := congrArg (fun members : Members Nat Nat 1 =>
    (members.records.slots 0).resident.map fun record => record.health.owners) same
  revert owners
  decide

/-- One of two dials fails; at its retry the member is probed, while the other dial is
still of the first generation. -/
theorem World.probing_reachable :
    ∃ parked probing : World Nat Nat Unit Unit Unit 1 2,
      (machine Nat Unit Unit 2 1 Setup.single).Reachable parked ∧
      (machine Nat Unit Unit 2 1 Setup.single).Reachable probing ∧
      parked.pool.membership.records.get ⟨0, 0⟩ =
        some ⟨7, 9, { Health.new with failures := 1, idle := .backoff, owners := 1 }⟩ ∧
      parked.pool.membership.records.ring = [] ∧
      (∃ members', parked.pool.membership.choose Setup.single 5 (fun _ => true) =
        .ok (.ready ⟨⟨0, 0⟩, 1⟩ 9, members')) ∧
      probing.pool.membership.records.get ⟨0, 0⟩ = some ⟨7, 9, { Health.new with
        generation := 1, failures := 1, idle := .probing, ready := .probe, owners := 2 }⟩ ∧
      probing.pool.dials.claims 1 = some ⟨⟨⟨0, 0⟩, 0⟩, false⟩ ∧
      ∃ after, probing.step (N := 1) Setup.single (.attach ⟨0, 1⟩ Source.all) =
          .ok (.connection (.applied 7), after) ∧
        after.pool.membership.records.get ⟨0, 0⟩ =
          some ⟨7, 9, { Health.new with generation := 2, owners := 2 }⟩ := by
  have synced := World.synced_reachable 2
  have first := synced.call (.poll 0 Source.all fun _ _ => .submitted) trivial rfl
  have second := first.call (.poll 0 Source.all fun _ _ => .submitted) trivial rfl
  have failed := second.call (.fail ⟨0, 0⟩ (.other ()) 0) trivial rfl
  have probed := failed.call (.poll 5 Source.all fun _ _ => .submitted) trivial rfl
  exact ⟨_, _, failed, probed, rfl, rfl, ⟨_, rfl⟩, rfl, rfl, _, rfl, rfl⟩

/-- A member that backs off is chosen once its retry is due; the probe has one dial, and
the dial of the first generation only settles. -/
theorem Pool.reachable_schedules_example :
    ∃ parked probing : World Nat Nat Unit Unit Unit 1 2,
      (machine Nat Unit Unit 2 1 Setup.single).Reachable parked ∧
      (machine Nat Unit Unit 2 1 Setup.single).Reachable probing ∧
      (∃ due, parked.pool.membership.retries 0 = some (0, due) ∧ due ≤ 5) ∧
      (∃ d, probing.pool.dials.claims d = some ⟨⟨⟨0, 0⟩, 1⟩, false⟩) ∧
      ∃ record members',
        probing.pool.membership.cancel Setup.single ⟨⟨0, 0⟩, 0⟩ = .ok (.ignored, members') ∧
        Late false ⟨0, 0⟩ record probing.pool.membership members' := by
  rcases World.probing_reachable with
    ⟨parked, probing, reached, reached', found, ring, ⟨members', chosen⟩, found', late, -⟩
  have schedules := Pool.reachable_schedules Nat Unit Unit 2 1 Setup.single least_lawful reached
  have schedules' := Pool.reachable_schedules Nat Unit Unit 2 1 Setup.single least_lawful reached'
  refine ⟨parked, probing, reached, reached', ?_, ?_, ?_⟩
  · have unscheduled : (0 : Fin 1) ∉ parked.pool.membership.records.ring := by simp [ring]
    rcases (schedules.1 ⟨0, 0⟩).mpr ⟨_, found, unscheduled, rfl⟩ with ⟨due, retry⟩
    exact ⟨due, retry, schedules.2.2.2.2 5 _ _ _ _ _ _ chosen retry⟩
  · rcases schedules'.2.2.1 ⟨0, 0⟩ _ found' rfl rfl with ⟨d, held, -⟩
    exact ⟨d, held⟩
  · rcases schedules'.2.2.2.1 1 _ _ late found' (by decide) with ⟨members', cancelled, -, late⟩
    exact ⟨_, members', cancelled, late⟩

end Examples

end Dope.Manifold.Service
