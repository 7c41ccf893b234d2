import Dope.Manifold.Service.Settles

/-! # Members are chosen

A choice first makes the member whose retry is due a probe, and then turns the ring
to a member that is eligible. A vacant dial claims that member; and a connection
brings the member it reached back to health.
-/

namespace Dope.Manifold.Service

open Dope.Round Dope.Run Function

variable {I A O : Type} {n m : Nat} {authoritative : Bool} {key : Key n}
  {claims : Fin m → Option (Claim n)} {d : Fin m} {members members' : Members I A n}
  {record : Record I A} {i : Fin n} {setup : Setup O n}

theorem Sound.reorder {records : Table n (Record I A)} (sound : Sound authoritative members claims)
    (slots : records.slots = members.records.slots)
    (ring : ∀ i, i ∈ records.ring ↔ i ∈ members.records.ring) :
    Sound authoritative { members with records } claims where
  good i := by
    rw [slots]
    exact (sound.good i).relink (ring i)
  live preserve e claim held := by
    have before := sound.live preserve e claim held
    unfold Table.get at before ⊢
    rwa [slots]

/-! ## Promotion -/

/-- The retry of a position is the one of its record. -/
theorem Sound.retry {generation due : Nat} (sound : Sound authoritative members claims)
    (retry : members.retries i = some (generation, due)) :
    ∃ record, members.records.get ⟨i, generation⟩ = some record ∧
      record.health.idle = .backoff ∧ i ∉ members.records.ring := by
  have good := sound.good i
  cases resides : (members.records.slots i).resident with
  | none =>
    rw [(good.vacant resides).1] at retry
    cases retry
  | some record =>
    have rests := good.rests record resides
    rcases rests.waits generation due retry with ⟨same, idle⟩
    exact ⟨record, Table.get_some.mpr ⟨same.symm, resides⟩, idle,
      rests.unlinked (by simp [idle])⟩

/-- A retry that is due is promoted; the ring gets no other member. -/
theorem promote_spec (now : Nat) (lawful : LawfulFirst setup.first)
    (sound : Sound setup.authoritative members claims) :
    ∃ result members', members.tryPromote setup now = .ok (result, members') ∧
      Sound setup.authoritative members' claims ∧ AgedAll members members' ∧
      ∀ i ∈ members'.records.ring, i ∈ members.records.ring ∨
        ∃ generation due, members.retries i = some (generation, due) ∧ due ≤ now := by
  unfold Members.tryPromote
  cases earliest : setup.first members.retries with
  | none => exact ⟨_, _, rfl, sound, .refl _, fun _ mem => .inl mem⟩
  | some i =>
    rcases lawful.some_ earliest with ⟨generation, due, retry, -⟩
    by_cases early : now < due
    · simp only [retry, if_pos early]
      exact ⟨_, _, rfl, sound, .refl _, fun _ mem => .inl mem⟩
    · rcases sound.retry retry with ⟨record, found, idle, out⟩
      rcases sound.resident found with ⟨whole, rests, -, -⟩
      simp only [retry, if_neg early, found, if_neg out]
      have moved : Elsewhere i members
          { members with retries := update members.retries i none } := .retries
      rcases resume_sound sound found moved whole rests out (update_self ..)
        (fun other _ => .refl other claims) (.refl _ claims) .probe with
        ⟨result, members', resumed, run, kept, elsewhere, slot, -, demand, -, -⟩
      refine ⟨result, members', by rw [← run], kept, ?_, ?_⟩
      · exact aged_of_slots (moved.trans elsewhere) whole slot fun retired =>
          demand.trans retired
      · intro j mem
        by_cases same : j = i
        · subst same
          exact .inr ⟨generation, due, retry, Nat.le_of_not_lt early⟩
        · exact .inl (((moved.trans elsewhere) j same).2.1.mp mem)

/-! ## Choice -/

theorem skip_spec (eligible : I → Bool) (left : Nat) (records : Table n (Record I A)) :
    (Members.skip eligible left records).2.slots = records.slots ∧
      ∀ i, i ∈ (Members.skip eligible left records).2.ring ↔ i ∈ records.ring := by
  induction left generalizing records with
  | zero => exact ⟨rfl, fun _ => Iff.rfl⟩
  | succ left ih =>
    unfold Members.skip
    cases records.turn with
    | none => exact ⟨rfl, fun _ => Iff.rfl⟩
    | some entry =>
      by_cases suits : eligible entry.2.id
      · simp only [suits, if_true]
        exact ⟨trivial, fun _ => trivial⟩
      · simp only [suits, Bool.false_eq_true, if_false]
        rcases ih records.advance with ⟨slots, ring⟩
        exact ⟨slots, fun i => (ring i).trans Table.mem_advance⟩

/-- A scheduled record becomes one that a vacant dial claims. -/
theorem claim_sound {linked : Prop} {record' : Record I A}
    (sound : Sound authoritative members claims) (vacant : claims d = none)
    (found : members.records.get key = some record) (link : key.slot ∈ members.records.ring)
    (elsewhere : Elsewhere key.slot members members')
    (slot : members'.records.slots key.slot = ⟨key.generation, some record'⟩)
    (ring : key.slot ∈ members'.records.ring ↔ linked) (retries : members'.retries = members.retries)
    (idle : record'.health.idle ≠ .backoff) (scheduled : linked → record'.health.idle = .exhausted)
    (healthy : linked → record'.health.ready = .healthy)
    (probing : record'.health.idle = .probing → record.health.ready = .probe)
    (generation : record'.health.generation = record.health.generation)
    (demand : record'.health.demand = record.health.demand)
    (owners : record'.health.owners =
      if authoritative then record.health.owners else record.health.owners + 1) :
    Sound authoritative members'
      (update claims d (some ⟨record.health.target key, false⟩)) := by
  rcases sound.resident found with ⟨whole, rests, -, -⟩
  have exhausted := rests.scheduled link
  have empty : members.retries key.slot = none := rests.retry_none (by simp [exhausted])
  have free := rests
  rw [empty] at free
  refine sound.becomes found elsewhere slot ring ((congrFun retries key.slot).trans empty) ?_ ?_
    (free.claim vacant idle scheduled healthy generation demand owners) ?_
  · refine Agree.elsewhere (by simp [vacant]) ?_
    intro claim held
    cases held
    rfl
  · apply Fewer.update
    intro claim held
    cases held
    rfl
  · -- No dial had the generation of a scheduled probe.
    intro desired probes
    rw [generation]
    refine ⟨d, update_self .., ?_⟩
    intro e claim held same
    by_contra apart
    rw [update_of_ne apart] at held
    exact rests.unpicked link (probing probes) e claim held same

/-- A vacant dial claims the member whose turn it is. -/
theorem take_spec (sound : Sound setup.authoritative members claims) (vacant : claims d = none)
    (turn : members.records.turn = some (i, record)) :
    Sound setup.authoritative (members.take setup i record)
        (update claims d
          (some ⟨record.health.target (members.records.key i), false⟩)) ∧
      AgedAll members (members.take setup i record) := by
  rcases Table.turn_some turn with ⟨link, resides⟩
  have found := Table.get_key resides
  rcases sound.resident found with ⟨whole, rests, -, -⟩
  have exhausted := rests.scheduled link
  let owners := if setup.authoritative then record.health.owners else record.health.owners + 1
  cases ready : record.health.ready with
  | healthy =>
    have elsewhere : Elsewhere i members (members.take setup i record) := by
      intro j apart
      simp only [Members.take, ready]
      split
      · simp
      · simp [apart]
    have slot : (members.take setup i record).records.slots i =
        ⟨(members.records.slots i).generation,
          some (record.withHealth fun h => { h with owners })⟩ := by
      cases preserve : setup.authoritative with
      | true =>
        simp only [Members.take, ready, preserve, owners, if_true]
        exact whole
      | false => simp [Members.take, ready, preserve, owners, Record.withHealth, resides]
    have ring : i ∈ (members.take setup i record).records.ring ↔ True := by
      simp only [Members.take, ready]
      split
      · simp [link]
      · simp [link]
    refine ⟨claim_sound sound vacant found link elsewhere slot ring rfl ?_ ?_ ?_ ?_ rfl rfl rfl,
      aged_of_slots elsewhere whole slot id⟩
    · simp [Record.withHealth, exhausted]
    · exact fun _ => exhausted
    · exact fun _ => ready
    · intro probing
      rw [Record.withHealth, exhausted] at probing
      cases probing
  | probe =>
    have elsewhere : Elsewhere i members (members.take setup i record) := by
      intro j apart
      simp only [Members.take, ready]
      split
      · simp [apart]
      · simp [apart]
    have slot : (members.take setup i record).records.slots i =
        ⟨(members.records.slots i).generation,
          some (record.withHealth fun h => { h with idle := .probing, owners })⟩ := by
      cases preserve : setup.authoritative with
      | true | false => simp [Members.take, ready, preserve, owners, Record.withHealth, resides]
    have ring : i ∈ (members.take setup i record).records.ring ↔ False := by
      simp only [Members.take, ready]
      split
      · simp
      · simp
    refine ⟨claim_sound sound vacant found link elsewhere slot ring rfl ?_ False.elim False.elim ?_
      rfl rfl rfl, aged_of_slots elsewhere whole slot id⟩
    · simp [Record.withHealth]
    · exact fun _ => ready

/-- What a choice answers with, and what the dial claims then. -/
theorem choose_spec (now : Nat) (lawful : LawfulFirst setup.first)
    (sound : Sound setup.authoritative members claims) (vacant : claims d = none)
    (eligible : I → Bool) :
    ∃ selection members', members.choose setup now eligible = .ok (selection, members') ∧
      AgedAll members members' ∧
      match selection with
      | .ready target _ =>
        Sound setup.authoritative members' (update claims d (some ⟨target, false⟩)) ∧
        (target.member.slot ∈ members.records.ring ∨
          ∃ generation due, members.retries target.member.slot = some (generation, due) ∧
            due ≤ now)
      | _ => Sound setup.authoritative members' claims := by
  rcases promote_spec now lawful sound with ⟨promoted, members', run, kept, aged, ring⟩
  unfold Members.choose
  simp only [run, ok_bind]
  cases promoted with
  | error => exact ⟨.exhausted, members', rfl, aged, kept⟩
  | ok =>
    rcases skip_spec eligible members'.desired members'.records with ⟨slots, order⟩
    have turned := kept.reorder slots order
    have ages : AgedAll members' { members' with
        records := (Members.skip eligible members'.desired members'.records).2 } := by
      intro i
      simp only [slots]
      exact .refl _
    dsimp only
    split
    · rename_i i record turn
      have turn : (Members.skip eligible members'.desired members'.records).2.turn =
          some (i, record) := by
        by_cases empty : (Members.skip eligible members'.desired members'.records).1 ≠ 0
        · rwa [if_pos empty] at turn
        · rw [if_neg empty] at turn
          cases turn
      rcases take_spec turned vacant turn with ⟨taken, older⟩
      refine ⟨_, _, rfl, (aged.trans ages).trans older, taken, ?_⟩
      exact ring i ((order i).mp (Table.turn_some turn).1)
    · split
      · exact ⟨_, _, rfl, aged.trans ages, turned⟩
      · exact ⟨_, _, rfl, aged.trans ages, turned⟩

/-! ## Connections -/

/-- A dial that connects keeps its claim on a member that is not being probed. -/
theorem connect_sound {claim claim' : Claim n} (sound : Sound authoritative members claims)
    (held : claims d = some claim) (names : claim.target.member = key)
    (names' : claim'.target.member = key) (found : members.records.get key = some record)
    (reached : claim'.target.health ≤ record.health.generation)
    (settled : record.health.demand = none ∨ record.health.idle ≠ .probing)
    (unpicked : key.slot ∈ members.records.ring → record.health.ready = .probe →
      claim'.target ≠ ⟨key, record.health.generation⟩) :
    Sound authoritative members (update claims d (some claim')) := by
  rcases sound.resident found with ⟨whole, rests, -, -⟩
  refine sound.becomes found (.refl key.slot members) whole Iff.rfl rfl ?_ ?_
    (rests.connect held names names' reached unpicked) ?_
  · refine Agree.elsewhere ?_ ?_
    · intro other held'
      rw [held] at held'
      cases held'
      rw [names]
    · intro other held'
      cases held'
      rw [names']
  · apply Fewer.update
    intro other held'
    cases held'
    exact names'
  · rcases settled with retired | idle
    · exact fun desired => absurd retired desired
    · exact .of_idle idle

/-- A member that was connected to is healthy under a new generation. -/
theorem resumed_sound {claim : Claim n} {record' : Record I A}
    (sound : Sound authoritative members claims) (held : claims d = some claim)
    (names : claim.target.member = key)
    (slot : members.records.slots key.slot = ⟨key.generation, some record'⟩)
    (idle : record'.health.idle = .exhausted) (ready : record'.health.ready = .healthy) :
    Sound authoritative members
      (update claims d (some ⟨record'.health.target key, true⟩)) := by
  have found : members.records.get key = some record' := by
    rw [Table.get_some, slot]
    exact ⟨rfl, rfl⟩
  refine connect_sound sound held names rfl found (Nat.le_refl _) (.inr (by simp [idle])) ?_
  intro _ probe
  rw [ready] at probe
  cases probe

/-- What the connection of a dial leaves: its member unclaimed by it, or reached. -/
def Recovered (authoritative : Bool) (members : Members I A n)
    (claims : Fin m → Option (Claim n)) (d : Fin m)
    (run : Except Fault (Peer I n × Members I A n)) : Prop :=
  ∃ peer members', run = .ok (peer, members') ∧ AgedAll members members' ∧
    Sound authoritative members' claims ∧
    ∀ target' output, peer = .ready target' output →
      Sound authoritative members' (update claims d (some ⟨target', true⟩))

section Recover

variable {target : Target n}

section

variable (sound : Sound authoritative members claims) (held : claims d = some ⟨target, false⟩)

include sound held

/-- A record out of the ring advances, and is scheduled as healthy. -/
theorem resumes_recovered {members₁ : Members I A n} {record₁ : Record I A} {output : I}
    (found : members.records.get target.member = some record)
    (moved : Elsewhere target.member.slot members members₁)
    (slot : members₁.records.slots target.member.slot = ⟨target.member.generation, some record₁⟩)
    (idle : record₁.health = { record.health with idle := record₁.health.idle })
    (rests : Rests authoritative target.member record.health (target.member.slot ∈
      members.records.ring) (members.retries target.member.slot) claims)
    (unparked : record₁.health.idle ≠ .backoff) (out : target.member.slot ∉ members₁.records.ring)
    (retries : members₁.retries target.member.slot = none) :
    Recovered authoritative members claims d
      (match members₁.tryResume target.member.slot record₁ .healthy with
      | (.ok (), members) => .ok (.ready
          ((record₁.health.tryReady .healthy).2.target target.member) output, members)
      | (.error _, members) => .ok (.exhausted, members)) := by
  have whole := (sound.resident found).1
  have rests₁ : Rests authoritative target.member record₁.health False none claims :=
    rests.idle unparked (by rw [idle]) (by rw [idle]) (by rw [idle])
  rcases resume_sound sound found moved slot rests₁ out retries
    (fun other _ => .refl other claims) (.refl _ claims) .healthy with
    ⟨result, members', record', run, kept, elsewhere, slot', health, same, exhausted, ready⟩
  have aged : AgedAll members members' := by
    refine aged_of_slots (moved.trans elsewhere) whole slot' ?_
    intro retired
    rw [same, idle]
    exact retired
  rw [run]
  cases result with
  | error => exact ⟨.exhausted, members', rfl, aged, kept, nofun⟩
  | ok =>
    refine ⟨_, members', rfl, aged, kept, ?_⟩
    intro target' output' peer
    cases peer
    rw [← health]
    exact resumed_sound kept held rfl slot' exhausted (ready rfl)

/-- A scheduled record advances if it is probed or the dial is of its generation. -/
theorem scheduled_recovered (found : members.records.get target.member = some record)
    (linked : target.member.slot ∈ members.records.ring) :
    Recovered authoritative members claims d
      (if record.health.ready ≠ .healthy ∨ record.health.matches_ target then
        match (record.health.tryReady .healthy).1 with
        | .ok () => .ok (.ready ((record.health.tryReady .healthy).2.target target.member) record.id,
            members.edit target.member.slot fun _ => (record.health.tryReady .healthy).2)
        | .error _ => .ok (.exhausted,
            { members.edit target.member.slot fun _ => (record.health.tryReady .healthy).2 with
              records := (members.edit target.member.slot fun _ =>
                (record.health.tryReady .healthy).2).records.unlink target.member.slot })
      else .ok (.ready (record.health.target target.member) record.id, members)) := by
  rcases sound.resident found with ⟨whole, rests, -, -⟩
  have idle := rests.scheduled linked
  have empty : members.retries target.member.slot = none := rests.retry_none (by simp [idle])
  by_cases advances : record.health.ready ≠ .healthy ∨ record.health.matches_ target = true
  · rw [if_pos advances]
    rcases tryReady_cases record.health .healthy with
      ⟨health', advanced, generation, exhausted, ready, demand, owners⟩ | spent
    · have moved := Elsewhere.edit target.member.slot members fun _ => health'
      have slot : (members.edit target.member.slot fun _ => health').records.slots
          target.member.slot =
          ⟨target.member.generation, some (record.withHealth fun _ => health')⟩ := by
        simp [Members.edit, whole]
      have ring : target.member.slot ∈
          (members.edit target.member.slot fun _ => health').records.ring ↔ True := by
        simp [Members.edit, linked]
      have kept : Sound authoritative (members.edit target.member.slot fun _ => health') claims := by
        refine sound.becomes found moved slot ring empty (fun other _ => .refl other claims)
          (.refl _ claims) (rests.schedule exhausted generation demand owners) (.of_idle ?_)
        rw [Record.withHealth, exhausted]
        simp
      simp only [advanced]
      refine ⟨_, _, rfl, aged_of_slots moved whole slot demand.trans, kept, ?_⟩
      intro target' output peer
      cases peer
      exact resumed_sound kept held rfl slot exhausted ready
    · have moved := (Elsewhere.edit target.member.slot members fun _ =>
        { record.health with idle := .exhausted }).trans (.unlink target.member.slot _)
      have slot : ((members.edit target.member.slot fun _ =>
          { record.health with idle := .exhausted }).records.unlink
            target.member.slot).slots target.member.slot =
          ⟨target.member.generation,
            some (record.withHealth fun h => { h with idle := .exhausted })⟩ := by
        simp [Members.edit, whole, Record.withHealth]
      have ring : target.member.slot ∈ ((members.edit target.member.slot fun _ =>
          { record.health with idle := .exhausted }).records.unlink
            target.member.slot).ring ↔ False := by
        simp
      simp only [spent]
      refine ⟨_, _, rfl, aged_of_slots moved whole slot id, ?_, (by simp)⟩
      refine sound.becomes found moved slot ring empty (fun other _ => .refl other claims)
        (.refl _ claims) (rests.idle (by simp [Record.withHealth]) rfl rfl rfl) (.of_idle ?_)
      rw [Record.withHealth]
      simp
  · rw [if_neg advances]
    have healthy : record.health.ready = .healthy := by
      by_contra other
      exact advances (.inl other)
    refine ⟨_, _, rfl, .refl _, sound, ?_⟩
    intro target' output peer
    cases peer
    refine connect_sound sound held rfl rfl found (Nat.le_refl _) (.inr (by simp [idle])) ?_
    intro _ probe
    rw [healthy] at probe
    cases probe

/-- What a connection finds of its member, and what the dial claims then. -/
theorem recover_spec (retained : I → Bool) :
    Recovered authoritative members claims d (members.recover target retained) := by
  cases found : members.records.get target.member with
  | none =>
    simp only [Members.recover, found]
    exact ⟨.missing, members, rfl, .refl _, sound, (by simp)⟩
  | some record =>
    rcases sound.resident found with ⟨whole, rests, -, -⟩
    by_cases stays : retained record.id
    · by_cases desired : record.isDesired
      · by_cases linked : target.member.slot ∈ members.records.ring
        · simp only [Members.recover, found, stays, desired, linked, Bool.not_true,
            Bool.false_eq_true, if_false, if_true]
          exact scheduled_recovered sound held found linked
        · cases idle : record.health.idle with
          | exhausted =>
            simp only [Members.recover, found, stays, desired, linked, idle, Bool.not_true,
              Bool.false_eq_true, if_false]
            exact ⟨.exhausted, members, rfl, .refl _, sound, (by simp)⟩
          | probing =>
            simp only [Members.recover, found, stays, desired, linked, idle, Bool.not_true,
              Bool.false_eq_true, if_false]
            exact resumes_recovered sound held found (.refl _ _) whole rfl rests (by simp [idle])
              linked (rests.retry_none (by simp [idle]))
          | backoff =>
            rcases rests.retry_some idle with ⟨due, retry⟩
            simp only [Members.recover, found, stays, desired, linked, idle, Bool.not_true,
              Bool.false_eq_true, if_false, Members.unpark, retry, if_true, ok_bind]
            refine resumes_recovered sound held found ?_ ?_ rfl rests (by rintro ⟨⟩) linked
              (update_self ..)
            · exact (Elsewhere.edit target.member.slot members _).trans .retries
            · simp [whole]
      · simp only [Members.recover, found, stays, desired, Bool.not_true, Bool.not_false,
          Bool.false_eq_true, if_false, if_true]
        refine ⟨_, _, rfl, .refl _, sound, ?_⟩
        intro target' output same
        cases same
        have retired : record.health.demand = none := by
          simpa [Record.isDesired] using desired
        have reached := rests.bound d _ held rfl
        refine connect_sound sound held rfl rfl found reached (.inl retired) ?_
        intro link probe
        have unpicked := rests.unpicked link probe d _ held
        exact unpicked
    · simp only [Members.recover, found, stays, Bool.not_false, if_true]
      exact ⟨.disabled, members, rfl, .refl _, sound, (by simp)⟩

end

end Recover

end Dope.Manifold.Service
