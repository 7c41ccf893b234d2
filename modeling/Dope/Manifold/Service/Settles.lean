import Dope.Base.Run
import Dope.Manifold.Service.Sound

/-! # Members settle

A dial that ends gives its claim up exactly once: the member it names fails, or its
probe is cancelled. Neither faults, and both keep the members sound.
-/

namespace Dope.Manifold.Service

open Dope.Round Dope.Run

variable {I A O : Type} {n m : Nat} {authoritative : Bool} {key : Key n} {linked : Prop}
  {retry : Option (Nat × Nat)} {claims claims' : Fin m → Option (Claim n)} {d : Fin m}
  {members members' : Members I A n} {record : Record I A} {i j : Fin n}

/-! ## One position changes -/

/-- Only one position changes. -/
def Elsewhere (j : Fin n) (before after : Members I A n) : Prop :=
  ∀ i, i ≠ j → after.records.slots i = before.records.slots i ∧
    (i ∈ after.records.ring ↔ i ∈ before.records.ring) ∧ after.retries i = before.retries i

theorem Elsewhere.refl (j : Fin n) (members : Members I A n) : Elsewhere j members members :=
  fun _ _ => ⟨rfl, Iff.rfl, rfl⟩

theorem Elsewhere.trans {first second third : Members I A n} (h : Elsewhere j first second)
    (h' : Elsewhere j second third) : Elsewhere j first third := by
  intro i apart
  rcases h i apart with ⟨slots, ring, retries⟩
  rcases h' i apart with ⟨slots', ring', retries'⟩
  exact ⟨slots'.trans slots, ring'.trans ring, retries'.trans retries⟩

theorem Elsewhere.edit (j : Fin n) (members : Members I A n) (f : Health → Health) :
    Elsewhere j members (members.edit j f) :=
  fun _ apart => ⟨Table.slots_edit_of_ne _ apart, Iff.rfl, rfl⟩

theorem Elsewhere.records {records : Table n (Record I A)}
    (slots : ∀ i, i ≠ j → records.slots i = members.records.slots i)
    (ring : ∀ i, i ≠ j → (i ∈ records.ring ↔ i ∈ members.records.ring)) :
    Elsewhere j members { members with records } :=
  fun i apart => ⟨slots i apart, ring i apart, rfl⟩

theorem Elsewhere.link (resides : (members.records.slots j).resident = some record) :
    Elsewhere j members { members with records := members.records.link j } := by
  refine .records (fun _ _ => rfl) ?_
  intro i apart
  rw [Table.mem_link resides]
  simp [apart]

theorem Elsewhere.unlink (j : Fin n) (members : Members I A n) :
    Elsewhere j members { members with records := members.records.unlink j } := by
  refine .records (fun _ _ => rfl) ?_
  intro i apart
  simp [apart]

theorem Elsewhere.discard (j : Fin n) (members : Members I A n) :
    Elsewhere j members { members with records := members.records.discard j } := by
  refine .records (fun _ apart => Table.slots_discard_of_ne apart) ?_
  intro i apart
  simp [apart]

theorem Elsewhere.retries :
    Elsewhere j members { members with retries := Function.update members.retries j retry } :=
  fun _ apart => ⟨rfl, Iff.rfl, Function.update_of_ne apart ..⟩

/-- A change of one position ages all if it ages this one. -/
theorem Elsewhere.aged (h : Elsewhere j members members')
    (aged : Aged (members.records.slots j) (members'.records.slots j)) :
    AgedAll members members' := by
  intro i
  by_cases same : i = j
  · subst same
    exact aged
  · rw [(h i same).1]
    exact .refl _

theorem Rests.relink {linked' : Prop} {health : Health}
    (h : Rests authoritative key health linked retry claims) (same : linked' ↔ linked) :
    Rests authoritative key health linked' retry claims := by
  rw [propext same]
  exact h

theorem Good.relink {linked' : Prop} {slot : Slot (Record I A)}
    (h : Good authoritative i slot linked retry claims) (same : linked' ↔ linked) :
    Good authoritative i slot linked' retry claims := by
  rw [propext same]
  exact h

theorem Sound.edit (sound : Sound authoritative members claims)
    (elsewhere : Elsewhere j members members')
    (agree : ∀ key : Key n, key.slot ≠ j → Agree key claims claims')
    (good : Good authoritative j (members'.records.slots j) (j ∈ members'.records.ring)
      (members'.retries j) claims')
    (live : authoritative = false → ∀ e claim, claims' e = some claim →
      claim.target.member.slot = j → (members'.records.get claim.target.member).isSome) :
    Sound authoritative members' claims' where
  good i := by
    by_cases same : i = j
    · subst same
      exact good
    · rcases elsewhere i same with ⟨slots, ring, retries⟩
      have before := sound.good i
      rw [slots, retries, propext ring]
      refine ⟨?_, ?_, ?_, ?_⟩
      · intro e claim held here
        have apart : claim.target.member.slot ≠ j := here ▸ same
        exact before.stale e claim ((agree _ apart e claim rfl).mp held) here
      · intro vacant
        rcases before.vacant vacant with ⟨empty, unnamed⟩
        refine ⟨empty, ?_⟩
        intro e claim held names
        have apart : claim.target.member.slot ≠ j := by rw [names]; exact same
        exact unnamed e claim ((agree _ apart e claim rfl).mp held) names
      · intro record resides
        exact (agree ⟨i, _⟩ same).rests (before.rests record resides)
      · intro record resides
        exact (agree ⟨i, _⟩ same).probed (before.probed record resides)
  live preserve e claim held := by
    by_cases here : claim.target.member.slot = j
    · exact live preserve e claim held here
    · have before := sound.live preserve e claim ((agree _ here e claim rfl).mp held)
      unfold Table.get at before ⊢
      rwa [(elsewhere _ here).1]

theorem Agree.elsewhere {other : Option (Claim n)}
    (old : ∀ claim, claims d = some claim → claim.target.member.slot = j)
    (new : ∀ claim, other = some claim → claim.target.member.slot = j) (key : Key n)
    (apart : key.slot ≠ j) : Agree key claims (Function.update claims d other) :=
  .update (fun claim held names => apart (names ▸ old claim held))
    fun claim held names => apart (names ▸ new claim held)

theorem Agree.refl (key : Key n) (claims : Fin m → Option (Claim n)) : Agree key claims claims :=
  fun _ _ _ => Iff.rfl

/-- The claims of a position, once one of them is dropped. -/
theorem stale_drop {generation : Nat}
    (h : ∀ d claim, claims d = some claim → claim.target.member.slot = i →
      claim.target.member.generation ≤ generation) :
    ∀ e claim, Function.update claims d none e = some claim → claim.target.member.slot = i →
      claim.target.member.generation ≤ generation := by
  intro e claim held here
  have apart : e ≠ d := by
    rintro rfl
    simp at held
  rw [Function.update_of_ne apart] at held
  exact h e claim held here

variable {claim : Claim n}

theorem Sound.forget (sound : Sound authoritative members claims) (held : claims d = some claim)
    (missing : members.records.get claim.target.member = none) :
    Sound authoritative members (Function.update claims d none) where
  good i := by
    have before := sound.good i
    have agree (resides : (members.records.slots i).resident.isSome) :
        Agree ⟨i, (members.records.slots i).generation⟩ claims (Function.update claims d none) := by
      refine .update ?_ (by simp)
      intro claim' held' names
      rw [held] at held'
      cases held'
      rcases Option.isSome_iff_exists.mp resides with ⟨record, resides⟩
      rw [names] at missing
      rw [Table.get_some.mpr ⟨rfl, resides⟩] at missing
      cases missing
    refine ⟨stale_drop before.stale, ?_, ?_, ?_⟩
    · intro vacant
      rcases before.vacant vacant with ⟨empty, unnamed⟩
      refine ⟨empty, ?_⟩
      intro e claim' held'
      have apart : e ≠ d := by
        rintro rfl
        simp at held'
      rw [Function.update_of_ne apart] at held'
      exact unnamed e claim' held'
    · intro record resides
      exact (agree (by simp [resides])).rests (before.rests record resides)
    · intro record resides
      exact (agree (by simp [resides])).probed (before.probed record resides)
  live preserve e claim' held' := by
    have apart : e ≠ d := by
      rintro rfl
      simp at held'
    rw [Function.update_of_ne apart] at held'
    exact sound.live preserve e claim' held'

/-- The record a position has, and what is known of it. -/
theorem Sound.resident (sound : Sound authoritative members claims)
    (found : members.records.get key = some record) :
    members.records.slots key.slot = ⟨key.generation, some record⟩ ∧
      Rests authoritative key record.health (key.slot ∈ members.records.ring)
        (members.retries key.slot) claims ∧
      Probed key record.health claims ∧
      ∀ d claim, claims d = some claim → claim.target.member.slot = key.slot →
        claim.target.member.generation ≤ key.generation := by
  rcases Table.get_some.mp found with ⟨generation, resides⟩
  have good := sound.good key.slot
  have whole : members.records.slots key.slot = ⟨key.generation, some record⟩ := by
    cases slot : members.records.slots key.slot
    simp_all
  have rests := good.rests record resides
  have probed := good.probed record resides
  have stale := good.stale
  rw [generation] at rests probed stale
  exact ⟨whole, rests, probed, stale⟩

theorem Sound.named (sound : Sound authoritative members claims) (preserve : authoritative = false)
    (held : claims d = some claim) (found : members.records.get key = some record)
    (here : claim.target.member.slot = key.slot) : claim.target.member = key := by
  rcases Option.isSome_iff_exists.mp (sound.live preserve d claim held) with ⟨record', found'⟩
  have generation := (Table.get_some.mp found').1
  have generation' := (Table.get_some.mp found).1
  rw [here] at generation
  cases member : claim.target.member
  cases key
  simp_all

/-- The claims that are left, or name one member. -/
def Fewer (key : Key n) (claims claims' : Fin m → Option (Claim n)) : Prop :=
  ∀ e claim, claims' e = some claim → claims e = some claim ∨ claim.target.member = key

theorem Fewer.refl (key : Key n) (claims : Fin m → Option (Claim n)) : Fewer key claims claims :=
  fun _ _ held => .inl held

theorem Fewer.update {other : Option (Claim n)}
    (new : ∀ claim, other = some claim → claim.target.member = key) :
    Fewer key claims (Function.update claims d other) := by
  intro e claim held
  by_cases same : e = d
  · subst same
    rw [Function.update_self] at held
    exact .inr (new claim held)
  · rw [Function.update_of_ne same] at held
    exact .inl held

variable {record' : Record I A}

theorem Sound.becomes (sound : Sound authoritative members claims)
    (found : members.records.get key = some record)
    (elsewhere : Elsewhere key.slot members members')
    (slot : members'.records.slots key.slot = ⟨key.generation, some record'⟩)
    (ring : key.slot ∈ members'.records.ring ↔ linked)
    (retries : members'.retries key.slot = retry)
    (agree : ∀ other : Key n, other.slot ≠ key.slot → Agree other claims claims')
    (fewer : Fewer key claims claims')
    (rests : Rests authoritative key record'.health linked retry claims')
    (probed : Probed key record'.health claims') : Sound authoritative members' claims' := by
  rcases sound.resident found with ⟨-, -, -, stale⟩
  refine sound.edit elsewhere agree ?_ ?_
  · rw [slot, retries]
    refine ⟨?_, by simp, ?_, ?_⟩
    · intro e claim held here
      rcases fewer e claim held with before | names
      · exact stale e claim before here
      · rw [names]
    · intro other same
      cases same
      exact rests.relink ring
    · intro other same
      cases same
      exact probed
  · intro preserve e claim held here
    have names : claim.target.member = key := by
      rcases fewer e claim held with before | names
      · exact sound.named preserve before found here
      · exact names
    rw [names, Table.get, if_pos (by rw [slot]), slot]
    rfl

theorem Agree.dropped (held : claims d = some claim) (names : claim.target.member = key)
    (other : Key n) (apart : other.slot ≠ key.slot) :
    Agree other claims (Function.update claims d none) := by
  refine Agree.elsewhere ?_ (by simp) other apart
  intro claim' held'
  rw [held] at held'
  cases held'
  rw [names]

/-! ## Settling -/

variable {setup : Setup O n} {target : Target n}

/-- The records are the same, and only one position was written. -/
structure Written (j : Fin n) (record : Record I A) (before after : Members I A n) : Prop where
  elsewhere : Elsewhere j before after
  slot : after.records.slots j = ⟨(before.records.slots j).generation, some record⟩
  ring : j ∈ after.records.ring ↔ j ∈ before.records.ring
  retries : after.retries j = before.retries j

theorem Written.refl (resides : (members.records.slots j).resident = some record) :
    Written j record members members where
  elsewhere := .refl j members
  slot := by
    cases slot : members.records.slots j
    simp_all
  ring := Iff.rfl
  retries := rfl

theorem Written.edit (f : Health → Health)
    (resides : (members.records.slots j).resident = some record) :
    Written j (record.withHealth f) members (members.edit j f) where
  elsewhere := .edit j members f
  slot := by simp [Members.edit, resides]
  ring := Iff.rfl
  retries := rfl

/-- A record leaves the ring or the queue of retries, whichever it is in. -/
theorem remove_spec {health : Health}
    (slot : members.records.slots key.slot = ⟨key.generation, some record⟩)
    (rests : Rests authoritative key health (key.slot ∈ members.records.ring)
      (members.retries key.slot) claims) (idle : record.health.idle = health.idle) :
    ∃ members' record', members.remove key.slot record = .ok members' ∧
      Elsewhere key.slot members members' ∧
      members'.records.slots key.slot = ⟨key.generation, some record'⟩ ∧
      record'.health = { record.health with idle := record'.health.idle } ∧
      record'.health.idle ≠ .backoff ∧
      key.slot ∉ members'.records.ring ∧ members'.retries key.slot = none := by
  unfold Members.remove
  by_cases linked : key.slot ∈ members.records.ring
  · have exhausted := rests.scheduled linked
    rw [if_pos linked]
    exact ⟨_, record, rfl, .unlink _ _, slot, rfl, by simp [idle, exhausted], by simp,
      rests.retry_none (by simp [exhausted])⟩
  · rw [if_neg linked]
    cases state : record.health.idle with
    | backoff =>
      rcases rests.retry_some (idle.symm.trans state) with ⟨due, retry⟩
      have named : members.records.key key.slot = key := by
        rw [Table.key, slot]
      simp only [Members.unpark, named, retry, if_pos]
      refine ⟨_, record.withHealth fun h => { h with idle := .exhausted }, rfl, ?_, ?_, rfl,
        (by rintro ⟨⟩), linked, Function.update_self ..⟩
      · exact (Elsewhere.edit key.slot members _).trans .retries
      · simp [slot]
    | probing =>
      exact ⟨_, record, rfl, .refl _ _, slot, rfl, by simp [state], linked,
        rests.retry_none (by simp [← idle, state])⟩
    | exhausted =>
      exact ⟨_, record, rfl, .refl _ _, slot, rfl, by simp [state], linked,
        rests.retry_none (by simp [← idle, state])⟩

/-- A member without claims leaves, and its name with it. -/
theorem discard_sound (sound : Sound authoritative members claims)
    (found : members.records.get key = some record)
    (unnamed : authoritative = false → ∀ e claim, claims' e = some claim → claim.target.member ≠
      key) (fewer : ∀ e claim, claims' e = some claim → claims e = some claim)
    (agree : ∀ other : Key n, other.slot ≠ key.slot → Agree other claims claims')
    (elsewhere : Elsewhere key.slot members members')
    (slot : members'.records.slots key.slot = ⟨key.generation, some record'⟩)
    (retries : members'.retries key.slot = none) :
    Sound authoritative { members' with records := members'.records.discard key.slot } claims' := by
  rcases sound.resident found with ⟨-, -, -, stale⟩
  refine sound.edit (elsewhere.trans (.discard _ _)) agree ?_ ?_
  · rw [Table.slots_discard_self, slot]
    refine ⟨?_, fun _ => ⟨retries, ?_⟩, by simp, by simp⟩
    · intro e claim held here
      exact Nat.le_succ_of_le (stale e claim (fewer e claim held) here)
    · intro e claim held names
      have le := stale e claim (fewer e claim held) (by rw [names])
      rw [names] at le
      dsimp only at le
      omega
  · intro preserve e claim held here
    exact absurd (sound.named preserve (fewer e claim held) found here)
      (unnamed preserve e claim held)

/-- What is left for a member that an epoch settled. -/
structure Settled (authoritative : Bool) (target : Target n) (record record' : Record I A)
    (members members' : Members I A n) (claims : Fin m → Option (Claim n)) (d : Fin m) : Prop where
  written : Written target.member.slot record' members members'
  idle : record'.health.idle = record.health.idle
  ready : record'.health.ready = record.health.ready
  generation : record'.health.generation = record.health.generation
  demand : record'.health.demand = record.health.demand
  desired : record.health.demand ≠ none
  rests : Rests authoritative target.member record'.health
    (target.member.slot ∈ members.records.ring) (members.retries target.member.slot)
    (Function.update claims d none)

/-- The member is there after all, or it went with its last owner. -/
theorem settle_spec (sound : Sound setup.authoritative members claims)
    (held : claims d = some claim) (found : members.records.get claim.target.member = some record) :
    ∃ kept members', members.settle setup claim.target.member record = .ok (kept, members') ∧
      AgedAll members members' ∧
      match kept with
      | none => Sound setup.authoritative members' (Function.update claims d none)
      | some record' => Settled setup.authoritative claim.target record record' members members'
          claims d := by
  rcases sound.resident found with ⟨whole, rests, probed, stale⟩
  have resides : (members.records.slots claim.target.member.slot).resident = some record := by
    rw [whole]
  cases preserve : setup.authoritative with
  | true =>
    refine ⟨some record, members, by simp [Members.settle, preserve], .refl _,
      .refl resides, rfl, rfl, rfl, rfl, ?_, ?_⟩
    · intro retired
      have none := (rests.demand retired).1
      rw [preserve] at none
      cases none
    · rw [preserve] at rests
      exact rests.settle held rfl rfl rfl rfl
        (fun retired => absurd (rests.demand retired).1 (by simp)) nofun
  | false =>
    rw [preserve] at rests sound
    have positive := rests.owners_pos rfl held rfl
    rcases Nat.exists_eq_succ_of_ne_zero positive.ne' with ⟨owners, count⟩
    have written := Written.edit (fun h => { h with owners }) resides
    have elsewhere := written.elsewhere
    have slot := written.slot
    rw [whole] at slot
    have aged : AgedAll members (members.edit claim.target.member.slot
        fun h => { h with owners }) := by
      apply elsewhere.aged
      rw [whole, slot]
      refine .inr ⟨rfl, ?_⟩
      intro other same retired
      cases same
      exact ⟨_, rfl, retired⟩
    simp only [Members.settle, preserve, Bool.false_eq_true, if_false, count]
    by_cases desired : record.health.demand = none
    · have retires : (record.withHealth fun h => { h with owners }).isDesired = false := by
        simp [Record.isDesired, Record.withHealth, desired]
      simp only [retires, Bool.false_eq_true, if_false]
      by_cases last : owners = 0
      · -- The last owner of a retired member.
        subst last
        have counted := owned_update claim.target.member claims d none
        rw [held, Tally.unit_some, if_pos rfl, Tally.unit_none, ← rests.owners rfl, count]
          at counted
        have left : ∀ e other, Function.update claims d none e = some other →
            other.target.member ≠ claim.target.member := by
          intro e other held' names
          have positive : 0 < owned claim.target.member (Function.update claims d none) :=
            Tally.tally_pos held' names
          omega
        rcases remove_spec slot (rests.relink written.ring) rfl with
          ⟨members', record', removed, elsewhere', slot', -, -, -, retries⟩
        simp only [if_true, removed, ok_bind]
        refine ⟨none, _, rfl, ?_, ?_⟩
        · refine ((elsewhere.trans elsewhere').trans (.discard _ _)).aged ?_
          rw [Table.slots_discard_self, slot', whole]
          exact .inl (Nat.lt_succ_self _)
        · refine discard_sound sound found (fun _ => left) ?_ (Agree.dropped held rfl)
            (elsewhere.trans elsewhere') slot' retries
          intro e other held'
          have apart : e ≠ d := by
            rintro rfl
            simp at held'
          rwa [Function.update_of_ne apart] at held'
      · simp only [last, if_false]
        refine ⟨none, _, rfl, aged, ?_⟩
        refine sound.becomes found elsewhere slot written.ring written.retries
          (Agree.dropped held rfl) (.update (by simp)) ?_ ?_
        · exact rests.settle held rfl rfl rfl rfl (fun _ => ⟨rfl, last⟩) fun _ => count
        · exact fun demanded => absurd desired demanded
    · have stays : (record.withHealth fun h => { h with owners }).isDesired = true := by
        simp [Record.isDesired, Record.withHealth, Option.isSome_iff_ne_none, desired]
      simp only [stays, if_true]
      refine ⟨_, _, rfl, aged, written, rfl, rfl, rfl, rfl, desired, ?_⟩
      exact rests.settle held rfl rfl rfl rfl (fun retired => absurd retired desired)
        fun _ => count

/-! ## Health -/

/-- Health advances to a new generation, or its generations are spent. -/
theorem tryReady_cases (health : Health) (ready : Ready) :
    (∃ health', health.tryReady ready = (.ok (), health') ∧
      health'.generation = health.generation + 1 ∧ health'.idle = .exhausted ∧
      health'.ready = ready ∧ health'.demand = health.demand ∧ health'.owners = health.owners) ∨
    health.tryReady ready = (.error {}, { health with idle := .exhausted }) := by
  unfold Health.tryReady Generation.next
  by_cases spent : health.generation = Generation.LAST
  · simp [spent]
  · simp [spent]

/-- The position of a settled member ages, whatever its health becomes. -/
theorem aged_of_slots (elsewhere : Elsewhere key.slot members members')
    (before : members.records.slots key.slot = ⟨key.generation, some record⟩)
    (after : members'.records.slots key.slot = ⟨key.generation, some record'⟩)
    (demand : record.health.demand = none → record'.health.demand = none) :
    AgedAll members members' := by
  apply elsewhere.aged
  rw [before, after]
  refine .inr ⟨rfl, ?_⟩
  intro other same retired
  cases same
  exact ⟨record', rfl, demand retired⟩

section

variable {members₀ : Members I A n} {record₀ : Record I A}
  (sound : Sound authoritative members₀ claims) (found : members₀.records.get key = some record₀)
  (elsewhere : Elsewhere key.slot members₀ members)
  (slot : members.records.slots key.slot = ⟨key.generation, some record⟩)
  (rests : Rests authoritative key record.health linked retry claims')
  (out : key.slot ∉ members.records.ring) (retries : members.retries key.slot = none)
  (agree : ∀ other : Key n, other.slot ≠ key.slot → Agree other claims claims')
  (fewer : Fewer key claims claims')

include sound found elsewhere slot rests out retries agree fewer

/-- A record that rests is scheduled under its next generation, or no more at all. -/
theorem resume_sound (ready : Ready) :
    ∃ result members' record', members.tryResume key.slot record ready = (result, members') ∧
      Sound authoritative members' claims' ∧ Elsewhere key.slot members members' ∧
      members'.records.slots key.slot = ⟨key.generation, some record'⟩ ∧
      record'.health = (record.health.tryReady ready).2 ∧
      record'.health.demand = record.health.demand ∧ record'.health.idle = .exhausted ∧
      (result = .ok () → record'.health.ready = ready) := by
  rcases tryReady_cases record.health ready with
    ⟨health', advanced, generation, idle, same, demand, owners⟩ | spent
  · let edited := members.edit key.slot fun _ => health'
    have edit : edited.records.slots key.slot =
        ⟨key.generation, some (record.withHealth fun _ => health')⟩ := by
      simp [edited, Members.edit, slot]
    have resides : (edited.records.slots key.slot).resident =
        some (record.withHealth fun _ => health') := by
      rw [edit]
    have moved : Elsewhere key.slot members
        { edited with records := edited.records.link key.slot } :=
      (Elsewhere.edit key.slot members _).trans (.link resides)
    refine ⟨.ok (), { edited with records := edited.records.link key.slot },
      record.withHealth fun _ => health', ?_, ?_, moved, edit, ?_, demand, idle, fun _ => same⟩
    · simp [Members.tryResume, advanced, edited]
    · refine sound.becomes found (elsewhere.trans moved) edit ?_ retries agree fewer
        (rests.schedule idle generation demand owners) (.of_idle ?_)
      · simp [Table.mem_link resides]
      · rw [Record.withHealth, idle]
        nofun
    · rw [advanced, Record.withHealth]
  · have moved := Elsewhere.edit key.slot members fun _ =>
      { record.health with idle := .exhausted }
    have edit : (members.edit key.slot fun _ =>
        { record.health with idle := .exhausted }).records.slots key.slot =
          ⟨key.generation, some (record.withHealth fun h => { h with idle := .exhausted })⟩ := by
      simp [Members.edit, slot, Record.withHealth]
    refine ⟨.error {}, _, record.withHealth fun h => { h with idle := .exhausted }, ?_, ?_, moved,
      edit, ?_, rfl, rfl, nofun⟩
    · simp [Members.tryResume, spent]
    · refine sound.becomes found (elsewhere.trans moved) edit ?_ retries agree fewer
        (rests.idle (by simp [Record.withHealth]) rfl rfl rfl) (.of_idle ?_)
      · simpa [Members.edit] using out
      · rw [Record.withHealth]
        nofun
    · rw [spent, Record.withHealth]

/-- A failure that is admitted parks the member until its retry is due. -/
theorem applyFailure_spec (setup : Setup O n) (backoff : Backoff) (now : Nat) :
    ∃ members' backoff', members.applyFailure setup key.slot record backoff now =
        .ok (members', backoff') ∧
      Sound authoritative members' claims' ∧ AgedAll members members' := by
  rcases entry : backoff.retryAt setup.limit record.health.failures now with
    ⟨due, failures, backoff'⟩
  have named : (members.edit key.slot fun h => { h with failures }).records.key key.slot = key := by
    simp [Table.key, Members.edit, slot]
  let members' : Members I A n := { members.edit key.slot fun h => { h with failures } with
    retries := Function.update members.retries key.slot (some (key.generation, due))
    records := (members.records.edit key.slot (.withHealth fun h => { h with failures })).edit
      key.slot (.withHealth fun h => { h with idle := .backoff }) }
  have run : members.applyFailure setup key.slot record backoff now = .ok (members', backoff') := by
    rw [Members.edit, Table.key] at named
    simp only [Members.applyFailure, entry, Members.park, Members.edit, Table.key, retries, ok_bind,
      named, members']
  have moved : Elsewhere key.slot members members' := by
    intro i apart
    exact ⟨by simp [members', apart], Iff.rfl, Function.update_of_ne apart ..⟩
  have parked : members'.records.slots key.slot = ⟨key.generation,
      some ((record.withHealth fun h => { h with failures }).withHealth
        fun h => { h with idle := .backoff })⟩ := by
    simp [members', slot]
  refine ⟨members', backoff', run, ?_, aged_of_slots moved slot parked id⟩
  refine sound.becomes found (elsewhere.trans moved) parked ?_ (Function.update_self ..) agree fewer
    (rests.park rfl rfl rfl rfl) (.of_idle (by rintro ⟨⟩))
  simpa [members'] using out

end

/-- What a settled record is probed for, if the epoch was not its probe. -/
theorem Settled.probed
    (h : Settled authoritative claim.target record record' members members' claims d)
    (probed : Probed claim.target.member record.health claims) (held : claims d = some claim)
    (other : record'.health.generation ≠ claim.target.health) :
    Probed claim.target.member record'.health (Function.update claims d none) := by
  refine (probed.drop held ?_).congr (fun _ => h.desired) h.idle h.generation
  intro same
  apply other
  rw [h.generation]
  exact congrArg Target.health same.symm

section Settled

variable {claim : Claim n} {record' : Record I A}

section

variable (h : Settled authoritative claim.target record record' members members' claims d)

include h

/-- A settled record stays as it is, unless its probe was the epoch that settled. -/
theorem Settled.sound (sound : Sound authoritative members claims) (held : claims d = some claim)
    (found : members.records.get claim.target.member = some record)
    (probed : Probed claim.target.member record'.health (Function.update claims d none)) :
    Sound authoritative members' (Function.update claims d none) := by
  have whole := (sound.resident found).1
  have slot := h.written.slot
  rw [whole] at slot
  exact sound.becomes found h.written.elsewhere slot h.written.ring h.written.retries
    (Agree.dropped held rfl) (.update (by simp)) h.rests probed

theorem Settled.slot (sound : Sound authoritative members claims)
    (found : members.records.get claim.target.member = some record) :
    members'.records.slots claim.target.member.slot =
      ⟨claim.target.member.generation, some record'⟩ := by
  rw [h.written.slot, (sound.resident found).1]

/-- The probe of a settled record goes back into the schedule, and no other event does
anything. -/
theorem cancelProbe_spec (sound : Sound authoritative members claims)
    (held : claims d = some claim) (found : members.records.get claim.target.member = some record) :
    ∃ update members'', members'.cancelProbe claim.target record' = (update, members'') ∧
      Sound authoritative members'' (Function.update claims d none) ∧
      AgedAll members' members'' := by
  rcases sound.resident found with ⟨-, -, probed, -⟩
  unfold Members.cancelProbe Health.matches_
  by_cases same : record'.health.generation = claim.target.health
  · by_cases linked : claim.target.member.slot ∈ members'.records.ring
    · have idle := h.rests.scheduled (h.written.ring.mp linked)
      refine ⟨.ignored, members', by simp [same, linked], ?_, .refl _⟩
      exact h.sound sound held found (.of_idle (by simp [idle]))
    · by_cases probing : record'.health.idle = .probing
      · have retries : members'.retries claim.target.member.slot = none :=
          h.written.retries.trans (h.rests.retry_none (by simp [probing]))
        rcases resume_sound sound found h.written.elsewhere (h.slot sound found) h.rests linked
          retries (Agree.dropped held rfl) (.update (by simp)) .probe with
          ⟨result, members'', resumed, run, kept, elsewhere, slot, -, demand, -, -⟩
        have aged := aged_of_slots elsewhere (h.slot sound found) slot fun retired =>
          demand.trans retired
        cases result with
        | ok =>
          exact ⟨.applied, members'', by simp [same, linked, probing, run], kept, aged⟩
        | error =>
          exact ⟨.exhausted, members'', by simp [same, linked, probing, run], kept, aged⟩
      · refine ⟨.ignored, members', by simp [same, linked, probing], ?_, .refl _⟩
        exact h.sound sound held found (.of_idle probing)
  · refine ⟨.ignored, members', by simp [same], ?_, .refl _⟩
    exact h.sound sound held found (h.probed probed held same)

end

end Settled

/-- A dial gives its claim up, and its unfinished probe is scheduled again. -/
theorem cancel_spec (sound : Sound setup.authoritative members claims)
    (held : claims d = some claim) :
    ∃ update members', members.cancel setup claim.target = .ok (update, members') ∧
      Sound setup.authoritative members' (Function.update claims d none) ∧
      AgedAll members members' := by
  unfold Members.cancel
  cases found : members.records.get claim.target.member with
  | none => exact ⟨.missing, members, rfl, sound.forget held found, .refl _⟩
  | some record =>
    rcases settle_spec sound held found with ⟨kept, members', run, aged, settled⟩
    simp only [run, ok_bind]
    cases kept with
    | none => exact ⟨.ignored, members', rfl, settled, aged⟩
    | some record' =>
      rcases cancelProbe_spec settled sound held found with ⟨update, members'', run', kept, aged'⟩
      exact ⟨update, members'', by simp [run'], kept, aged.trans aged'⟩

theorem cancelIf_spec (sound : Sound setup.authoritative members claims)
    (held : claims d = some claim) (cancel : I → Bool) :
    ∃ update members', members.cancelIf setup claim.target cancel = .ok (update, members') ∧
      AgedAll members members' ∧
      match update with
      | none => members' = members
      | some _ => Sound setup.authoritative members' (Function.update claims d none) := by
  unfold Members.cancelIf
  cases found : members.records.get claim.target.member with
  | none => exact ⟨some .missing, members, rfl, .refl _, sound.forget held found⟩
  | some record =>
    cases stays : cancel record.id with
    | false => exact ⟨none, members, by simp [stays], .refl _, rfl⟩
    | true =>
      rcases settle_spec sound held found with ⟨kept, members', run, aged, settled⟩
      simp only [stays, Bool.not_true, Bool.false_eq_true, if_false, run, ok_bind]
      cases kept with
      | none => exact ⟨some .ignored, members', rfl, aged, settled⟩
      | some record' =>
        rcases cancelProbe_spec settled sound held found with
          ⟨update, members'', run', kept, aged'⟩
        exact ⟨some update, members'', by simp [run'], aged.trans aged', kept⟩

/-- A dial gives its claim up, and the member it names fails. -/
theorem fail_spec (sound : Sound setup.authoritative members claims) (held : claims d = some claim)
    (backoff : Backoff) (now : Nat) :
    ∃ update members' backoff', members.fail setup claim.target backoff now =
        .ok (update, members', backoff') ∧
      Sound setup.authoritative members' (Function.update claims d none) ∧
      AgedAll members members' := by
  unfold Members.fail
  cases found : members.records.get claim.target.member with
  | none => exact ⟨.missing, members, backoff, rfl, sound.forget held found, .refl _⟩
  | some record =>
    rcases sound.resident found with ⟨-, -, probed, -⟩
    rcases settle_spec sound held found with ⟨kept, members', run, aged, settled⟩
    simp only [run, ok_bind]
    cases kept with
    | none => exact ⟨.ignored, members', backoff, rfl, settled, aged⟩
    | some record' =>
      have slot := settled.slot sound found
      have stays (same : record'.health.generation ≠ claim.target.health ∨
          record'.health.idle ≠ .probing) :
          Sound setup.authoritative members' (Function.update claims d none) := by
        rcases same with other | idle
        · exact settled.sound sound held found (settled.probed probed held other)
        · exact settled.sound sound held found (.of_idle idle)
      by_cases same : record'.health.generation = claim.target.health
      · by_cases linked : claim.target.member.slot ∈ members'.records.ring
        · have idle := settled.rests.scheduled (settled.written.ring.mp linked)
          cases ready : record'.health.ready with
          | probe =>
            refine ⟨.ignored, members', backoff, ?_, stays (.inr (by simp [idle])), aged⟩
            simp [Members.tryFailure, Health.matches_, same, linked, ready]
          | healthy =>
            have retries : members'.retries claim.target.member.slot = none :=
              settled.written.retries.trans (settled.rests.retry_none (by simp [idle]))
            have unlinked := Elsewhere.unlink claim.target.member.slot members'
            rcases applyFailure_spec sound found (settled.written.elsewhere.trans unlinked) slot
              settled.rests (by simp) retries (Agree.dropped held rfl) (.update (by simp)) setup
              backoff now with
              ⟨members'', backoff', run', kept, aged'⟩
            refine ⟨.applied, members'', backoff', ?_, kept, aged.trans aged'⟩
            simp [Members.tryFailure, Health.matches_, same, linked, ready, run']
        · cases idle : record'.health.idle with
          | probing =>
            have retries : members'.retries claim.target.member.slot = none :=
              settled.written.retries.trans (settled.rests.retry_none (by simp [idle]))
            rcases applyFailure_spec sound found settled.written.elsewhere slot settled.rests linked
              retries (Agree.dropped held rfl) (.update (by simp)) setup backoff now with
              ⟨members'', backoff', run', kept, aged'⟩
            refine ⟨.applied, members'', backoff', ?_, kept, aged.trans aged'⟩
            simp [Members.tryFailure, Health.matches_, same, linked, idle, run']
          | backoff | exhausted =>
            refine ⟨.ignored, members', backoff, ?_, stays (.inr (by simp [idle])), aged⟩
            simp [Members.tryFailure, Health.matches_, same, linked, idle]
      · refine ⟨.ignored, members', backoff, ?_, stays (.inl same), aged⟩
        simp [Members.tryFailure, Health.matches_, same]

end Dope.Manifold.Service
