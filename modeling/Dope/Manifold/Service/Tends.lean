import Dope.Manifold.Service.Runs

/-! # What an operation leaves alone

Outside of a snapshot no member comes, and only one that retired leaves; a member keeps
its identity, its address and whether it is desired, and its count of failures falls
only when it recovers.
-/

namespace Dope.Manifold.Service

open Dope.Round Dope.Run Function

variable {I A O P X E : Type} {n m N : Nat} {setup : Setup O n}

/-- How the health of a member changes; its failures are forgotten only when it is healthy
again, under a new generation. -/
structure Steady (recovers : Bool) (health health' : Health) : Prop where
  demand : health'.demand = none ↔ health.demand = none
  generation : health.generation ≤ health'.generation
  failures : health.failures ≤ health'.failures ∨
    recovers = true ∧ health'.failures = 0 ∧ health'.ready = .healthy ∧
      health.generation < health'.generation

theorem Steady.refl (recovers : Bool) (health : Health) : Steady recovers health health :=
  ⟨Iff.rfl, Nat.le_refl _, .inl (Nat.le_refl _)⟩

theorem Steady.trans {recovers : Bool} {first second third : Health}
    (h : Steady false first second) (h' : Steady recovers second third) :
    Steady recovers first third where
  demand := h'.demand.trans h.demand
  generation := h.generation.trans h'.generation
  failures := by
    rcases h.failures with le | ⟨never, -⟩
    · rcases h'.failures with le' | ⟨recovered, zero, healthy, less⟩
      · exact .inl (le.trans le')
      · exact .inr ⟨recovered, zero, healthy, h.generation.trans_lt less⟩
    · cases never

/-- Writes that concern neither the demand, the generation nor the failures. -/
theorem Steady.of_eq {recovers : Bool} {health health' : Health}
    (demand : health'.demand = health.demand) (generation : health'.generation = health.generation)
    (failures : health'.failures = health.failures) : Steady recovers health health' :=
  ⟨by rw [demand], generation.ge, .inl failures.ge⟩

/-- What becomes of one position. -/
def Tend (recovers : Bool) (before after : Slot (Record I A)) : Prop :=
  (after.generation = before.generation ∧ (before.resident = none → after.resident = none) ∧
    ∀ record, before.resident = some record → ∃ record', after.resident = some record' ∧
      record'.id = record.id ∧ record'.addr = record.addr ∧
      Steady recovers record.health record'.health) ∨
  ∃ record, before.resident = some record ∧ record.health.demand = none ∧
    after.resident = none ∧ before.generation < after.generation

theorem Tend.refl (recovers : Bool) (slot : Slot (Record I A)) : Tend recovers slot slot :=
  .inl ⟨rfl, id, fun record resides => ⟨record, resides, rfl, rfl, .refl _ _⟩⟩

theorem Tend.trans {recovers : Bool} {first second third : Slot (Record I A)}
    (h : Tend false first second) (h' : Tend recovers second third) :
    Tend recovers first third := by
  rcases h with ⟨generation, vacant, stays⟩ | ⟨record, resides, retired, gone, older⟩
  · rcases h' with ⟨generation', vacant', stays'⟩ | ⟨record', resides', retired', gone', older'⟩
    · refine .inl ⟨generation'.trans generation, vacant' ∘ vacant, ?_⟩
      intro record resides
      rcases stays record resides with ⟨record', resides', id', addr', steady⟩
      rcases stays' record' resides' with ⟨record'', resides'', id'', addr'', steady'⟩
      exact ⟨record'', resides'', id''.trans id', addr''.trans addr', steady.trans steady'⟩
    · right
      cases before : first.resident with
      | none =>
        rw [vacant before] at resides'
        cases resides'
      | some record =>
        rcases stays record before with ⟨record'', resides'', -, -, steady⟩
        rw [resides'] at resides''
        cases resides''
        exact ⟨record, rfl, steady.demand.mp retired', gone', by omega⟩
  · rcases h' with ⟨generation', vacant', -⟩ | ⟨record', resides', -, -, -⟩
    · exact .inr ⟨record, resides, retired, vacant' gone, by omega⟩
    · rw [gone] at resides'
      cases resides'

/-- A position is active while its member is scheduled or waits for its retry. -/
def Members.Active (members : Members I A n) (i : Fin n) : Prop :=
  i ∈ members.records.ring ∨ members.retries i ≠ none

def Members.Desired (members : Members I A n) (i : Fin n) : Prop :=
  ∃ record, (members.records.slots i).resident = some record ∧ record.health.demand ≠ none

structure Tends (recovers : Bool) (members members' : Members I A n) : Prop where
  revision : members'.revision = members.revision
  desired : members'.desired = members.desired
  slot : ∀ i, Tend recovers (members.records.slots i) (members'.records.slots i)
  active : ∀ i, members'.Active i → members.Active i ∨ members'.Desired i

variable {recovers : Bool} {members members' members'' : Members I A n} {record : Record I A}
  {key : Key n} {i : Fin n}

theorem Tends.stays (h : Tends recovers members members') (desired : members.Desired i) :
    members'.Desired i := by
  rcases desired with ⟨record, resides, demand⟩
  rcases h.slot i with ⟨-, -, stays⟩ | ⟨record', resides', retired, -⟩
  · rcases stays record resides with ⟨record', resides', -, -, steady⟩
    exact ⟨record', resides', fun none => demand (steady.demand.mp none)⟩
  · rw [resides] at resides'
    cases resides'
    exact absurd retired demand

theorem Tends.refl (recovers : Bool) (members : Members I A n) : Tends recovers members members :=
  ⟨rfl, rfl, fun _ => .refl _ _, fun _ active => .inl active⟩

theorem Tends.trans (h : Tends false members members') (h' : Tends recovers members' members'') :
    Tends recovers members members'' where
  revision := h'.revision.trans h.revision
  desired := h'.desired.trans h.desired
  slot j := (h.slot j).trans (h'.slot j)
  active j active := by
    rcases h'.active j active with before | desired
    · exact (h.active j before).imp id h'.stays
    · exact .inr desired

/-! ## Writes -/

theorem Tends.edit {f : Health → Health}
    (steady : ∀ record, (members.records.slots i).resident = some record →
      Steady recovers record.health (f record.health)) :
    Tends recovers members (members.edit i f) where
  revision := rfl
  desired := rfl
  slot j := by
    by_cases same : j = i
    · subst same
      left
      simp only [Members.edit, Table.slots_edit_self]
      refine ⟨trivial, fun vacant => by simp [vacant], ?_⟩
      intro record resides
      exact ⟨record.withHealth f, by simp [resides], rfl, rfl, steady record resides⟩
    · rw [Members.edit, Table.slots_edit_of_ne _ same]
      exact .refl _ _
  active j active := .inl active

/-- The order of the ring, or the retries, change without a new entry. -/
theorem Tends.reorder {records : Table n (Record I A)} {retries : Retries n}
    (slots : records.slots = members.records.slots)
    (ring : ∀ j ∈ records.ring, j ∈ members.records.ring ∨ members.Desired j)
    (waits : ∀ j, retries j ≠ none → members.retries j ≠ none ∨ members.Desired j) :
    Tends recovers members { members with records, retries } where
  revision := rfl
  desired := rfl
  slot j := by
    rw [slots]
    exact .refl _ _
  active j active := by
    have same : members.Desired j →
        Members.Desired ({ members with records, retries } : Members I A n) j := by
      intro desired
      unfold Members.Desired
      rw [slots]
      exact desired
    rcases active with linked | waiting
    · exact (ring j linked).imp .inl same
    · exact (waits j waiting).imp .inr same

theorem Tends.link (desired : members.Desired i) :
    Tends recovers members { members with records := members.records.link i } := by
  rcases desired with ⟨record, resides, demand⟩
  refine .reorder rfl ?_ fun _ waits => .inl waits
  intro j linked
  rcases (Table.mem_link resides).mp linked with before | rfl
  · exact .inl before
  · exact .inr ⟨record, resides, demand⟩

theorem Tends.unlink (i : Fin n) :
    Tends recovers members { members with records := members.records.unlink i } :=
  .reorder rfl (fun _ linked => .inl (Table.mem_unlink.mp linked).1) fun _ waits => .inl waits

theorem Tends.unretry (i : Fin n) :
    Tends recovers members
      { members with retries := update members.retries i none } := by
  refine .reorder rfl (fun _ linked => .inl linked) ?_
  intro j waits
  by_cases same : j = i
  · subst same
    exact absurd (update_self ..) waits
  · rw [update_of_ne same] at waits
    exact .inl waits

theorem Tends.discard (resides : (members.records.slots i).resident = some record)
    (retired : record.health.demand = none) :
    Tends recovers members { members with records := members.records.discard i } where
  revision := rfl
  desired := rfl
  slot j := by
    by_cases same : j = i
    · subst same
      rw [Table.slots_discard_self]
      exact .inr ⟨record, resides, retired, rfl, Nat.lt_succ_self _⟩
    · rw [Table.slots_discard_of_ne same]
      exact .refl _ _
  active j active := by
    left
    rcases active with linked | waits
    · exact .inl (Table.mem_discard.mp linked).1
    · exact .inr waits

/-! ## Operations of the members -/

/-- Under authority no member rests without demand. -/
def Faithful (authoritative : Bool) (members : Members I A n) : Prop :=
  authoritative = true → ∀ i record, (members.records.slots i).resident = some record →
    record.health.demand ≠ none

theorem Tends.faithful {authoritative : Bool} (h : Tends recovers members members')
    (faithful : Faithful authoritative members) : Faithful authoritative members' := by
  intro authority i record resides retired
  rcases h.slot i with ⟨-, vacant, stays⟩ | ⟨-, -, -, gone, -⟩
  · cases before : (members.records.slots i).resident with
    | none =>
      rw [vacant before] at resides
      cases resides
    | some record' =>
      rcases stays record' before with ⟨record'', resides', -, -, steady⟩
      rw [resides] at resides'
      cases resides'
      exact faithful authority i record' before (steady.demand.mp retired)
  · rw [gone] at resides
    cases resides

theorem Sound.faithful {authoritative : Bool} {claims : Fin m → Option (Claim n)}
    (sound : Sound authoritative members claims) : Faithful authoritative members := by
  intro authority i record resides retired
  have preserve := (((sound.good i).rests record resides).demand retired).1
  rw [authority] at preserve
  cases preserve

theorem tryReady_steady (health : Health) (ready : Ready) :
    Steady (ready = .healthy) health (health.tryReady ready).2 := by
  unfold Health.tryReady Generation.next
  by_cases spent : health.generation = Generation.LAST
  · simp only [spent, if_true]
    exact .of_eq rfl spent.symm rfl
  · simp only [spent, if_false]
    refine ⟨Iff.rfl, Nat.le_succ _, ?_⟩
    cases ready with
    | healthy => exact .inr ⟨rfl, rfl, rfl, Nat.lt_succ_self _⟩
    | probe => exact .inl (Nat.le_refl _)

theorem Steady.weaken {health health' : Health} (h : Steady recovers health health') :
    Steady true health health' where
  demand := h.demand
  generation := h.generation
  failures := h.failures.imp id fun recovered => ⟨rfl, recovered.2⟩

theorem unpark_tends (run : members.unpark key = .ok members') : Tends false members members' := by
  unfold Members.unpark at run
  split at run
  · cases run
  · split at run
    · cases run
      refine (Tends.unretry key.slot).trans (.edit ?_)
      exact fun record _ => .of_eq rfl rfl rfl
    · cases run

theorem remove_tends (run : members.remove i record = .ok members') :
    Tends false members members' := by
  unfold Members.remove at run
  split at run
  · cases run
    exact .unlink i
  · cases idle : record.health.idle with
    | backoff =>
      rw [idle] at run
      exact unpark_tends run
    | probing | exhausted =>
      rw [idle] at run
      cases run
      exact .refl _ _

/-- Whatever is removed from its queue, its generation stays. -/
theorem remove_generation (run : members.remove i record = .ok members') (j : Fin n) :
    (members'.records.slots j).generation = (members.records.slots j).generation := by
  unfold Members.remove at run
  split at run
  · cases run
    rfl
  · cases idle : record.health.idle with
    | probing | exhausted =>
      rw [idle] at run
      cases run
      rfl
    | backoff =>
      rw [idle] at run
      dsimp only [Members.unpark] at run
      split at run
      · cases run
      · split at run
        · cases run
          by_cases same : j = i
          · subst same
            simp [Table.key]
          · simp [Table.key, same]
        · cases run

theorem park_tends {due : Nat} (desired : members.Desired i)
    (run : members.park i due = .ok members') : Tends false members members' := by
  unfold Members.park at run
  split at run
  · cases run
  · cases run
    have waits : Tends false members { members with
        retries := update members.retries i
          (some ((members.records.key i).generation, due)) } := by
      refine .reorder rfl (fun _ linked => .inl linked) ?_
      intro j waits
      by_cases same : j = i
      · subst same
        exact .inr desired
      · rw [update_of_ne same] at waits
        exact .inl waits
    exact waits.trans (.edit fun record _ => .of_eq rfl rfl rfl)

theorem tryResume_tends {ready : Ready} (lawful : ready = .healthy → recovers = true)
    (resides : (members.records.slots i).resident = some record)
    (desired : record.health.demand ≠ none) :
    Tends recovers members (members.tryResume i record ready).2 := by
  have steady : Steady recovers record.health (record.health.tryReady ready).2 := by
    have before := tryReady_steady record.health ready
    cases ready with
    | healthy =>
      rw [lawful rfl]
      exact before.weaken
    | probe =>
      cases recovers with
      | false => exact before
      | true => exact before.weaken
  have edited : Tends recovers members
      (members.edit i fun _ => (record.health.tryReady ready).2) := by
    apply Tends.edit
    intro other resides'
    rw [resides] at resides'
    cases resides'
    exact steady
  unfold Members.tryResume
  cases result : (record.health.tryReady ready).1 with
  | error exhausted => simpa only [result] using edited
  | ok done =>
    simp only [result]
    -- The member is still desired once its health was written.
    refine ⟨rfl, rfl, edited.slot, ?_⟩
    have stays : (members.edit i fun _ => (record.health.tryReady ready).2).Desired i :=
      edited.stays ⟨record, resides, desired⟩
    intro j active
    have linked : Tends false (members.edit i fun _ => (record.health.tryReady ready).2) _ :=
      .link stays
    rcases linked.active j active with before | after
    · exact .inl before
    · exact .inr (linked.stays after)

variable {target : Target n}

theorem cancelProbe_tends
    (resides : (members.records.slots target.member.slot).resident = some record)
    (desired : record.health.demand ≠ none) :
    Tends false members (members.cancelProbe target record).2 := by
  unfold Members.cancelProbe
  split
  · exact .refl _ _
  · split
    · exact .refl _ _
    · split
      · exact .refl _ _
      · have resumed : Tends false members (members.tryResume target.member.slot record .probe).2 :=
          tryResume_tends nofun resides desired
        split
        · rename_i members' result
          rw [result] at resumed
          exact resumed
        · rename_i exhausted members' result
          rw [result] at resumed
          exact resumed

theorem settle_tends {kept : Option (Record I A)} (found : members.records.get key = some record)
    (faithful : Faithful setup.authoritative members)
    (run : members.settle setup key record = .ok (kept, members')) :
    Tends false members members' ∧ ∀ record', kept = some record' →
      (members'.records.slots key.slot).resident = some record' ∧
        record'.health.demand ≠ none := by
  have resides := (Table.get_some.mp found).2
  unfold Members.settle at run
  by_cases authority : setup.authoritative = true
  · rw [if_pos authority] at run
    cases run
    refine ⟨.refl _ _, ?_⟩
    rintro record' ⟨⟩
    exact ⟨resides, faithful authority _ record resides⟩
  · rw [if_neg authority] at run
    cases count : record.health.owners with
    | zero =>
      simp only [count] at run
      cases run
    | succ owners =>
      simp only [count] at run
      have edited : Tends false members (members.edit key.slot fun h => { h with owners }) :=
        .edit fun record _ => .of_eq rfl rfl rfl
      have resides' : ((members.edit key.slot fun h => { h with owners }).records.slots
          key.slot).resident = some (record.withHealth fun h => { h with owners }) := by
        simp [Members.edit, resides]
      by_cases desired : (record.withHealth fun h => { h with owners }).isDesired = true
      · rw [if_pos desired] at run
        cases run
        refine ⟨edited, ?_⟩
        rintro record' ⟨⟩
        refine ⟨resides', ?_⟩
        rwa [Record.isDesired, Option.isSome_iff_ne_none] at desired
      · rw [if_neg desired] at run
        by_cases last : owners = 0
        · rw [if_pos last] at run
          rcases bind_ok.mp run with ⟨removed, unlinked, finish⟩
          cases finish
          have left := remove_tends unlinked
          have retired : (record.withHealth fun h => { h with owners }).health.demand = none := by
            simpa [Record.isDesired] using desired
          refine ⟨edited.trans (left.trans ?_), (by simp)⟩
          rcases left.slot key.slot with ⟨-, -, stays⟩ | ⟨-, -, -, -, older⟩
          · rcases stays _ resides' with ⟨record', resides'', -, -, steady⟩
            exact .discard resides'' (steady.demand.mpr retired)
          · rw [remove_generation unlinked] at older
            exact absurd older (Nat.lt_irrefl _)
        · rw [if_neg last] at run
          cases run
          exact ⟨edited, (by simp)⟩

theorem cancel_tends {update : Update} (faithful : Faithful setup.authoritative members)
    (run : members.cancel setup target = .ok (update, members')) :
    Tends false members members' := by
  unfold Members.cancel at run
  cases found : members.records.get target.member with
  | none =>
    rw [found] at run
    cases run
    exact .refl _ _
  | some record =>
    simp only [found] at run
    rcases bind_ok.mp run with ⟨⟨kept, settled⟩, settles, finish⟩
    rcases settle_tends found faithful settles with ⟨tends, stays⟩
    cases kept with
    | none =>
      cases finish
      exact tends
    | some record' =>
      rcases stays record' rfl with ⟨resides, desired⟩
      have cancelled := cancelProbe_tends resides desired
      have same : (settled.cancelProbe target record').2 = members' :=
        congrArg Prod.snd (Except.ok.inj finish)
      exact tends.trans (same ▸ cancelled)

theorem cancelIf_tends {cancel : I → Bool} {update : Option Update}
    (faithful : Faithful setup.authoritative members)
    (run : members.cancelIf setup target cancel = .ok (update, members')) :
    Tends false members members' := by
  unfold Members.cancelIf at run
  cases found : members.records.get target.member with
  | none =>
    rw [found] at run
    cases run
    exact .refl _ _
  | some record =>
    simp only [found] at run
    split at run
    · cases run
      exact .refl _ _
    · rcases bind_ok.mp run with ⟨⟨kept, settled⟩, settles, finish⟩
      rcases settle_tends found faithful settles with ⟨tends, stays⟩
      cases kept with
      | none =>
        cases finish
        exact tends
      | some record' =>
        rcases stays record' rfl with ⟨resides, desired⟩
        have cancelled := cancelProbe_tends resides desired
        have same : (settled.cancelProbe target record').2 = members' :=
          congrArg Prod.snd (Except.ok.inj finish)
        exact tends.trans (same ▸ cancelled)

theorem advance_le (failures : Nat) : failures ≤ (Failures.advance failures).2 := by
  unfold Failures.advance
  split
  · exact Nat.le_refl _
  · exact Nat.le_succ _

variable {now : Nat}

theorem applyFailure_tends {backoff backoff' : Backoff}
    (resides : (members.records.slots i).resident = some record)
    (desired : record.health.demand ≠ none)
    (run : members.applyFailure setup i record backoff now = .ok (members', backoff')) :
    Tends false members members' := by
  unfold Members.applyFailure at run
  rcases bind_ok.mp run with ⟨parked, parks, finish⟩
  cases finish
  have counted : Tends false members (members.edit i fun h => { h with
      failures := (backoff.retryAt setup.limit record.health.failures now).2.1 }) := by
    apply Tends.edit
    intro other resides'
    rw [resides] at resides'
    cases resides'
    exact ⟨Iff.rfl, Nat.le_refl _, .inl (advance_le _)⟩
  exact counted.trans (park_tends (counted.stays ⟨record, resides, desired⟩) parks)

theorem tryFailure_tends (run : members.tryFailure target record = some members') :
    Tends false members members' ∧ members'.records.slots = members.records.slots := by
  unfold Members.tryFailure at run
  split at run
  · cases run
  · split at run
    · split at run
      · cases run
      · cases run
        exact ⟨.unlink _, rfl⟩
    · split at run
      · cases run
        exact ⟨.refl _ _, rfl⟩
      · cases run
      · cases run

theorem fail_tends {backoff backoff' : Backoff} {update : Update}
    (faithful : Faithful setup.authoritative members)
    (run : members.fail setup target backoff now = .ok (update, members', backoff')) :
    Tends false members members' := by
  unfold Members.fail at run
  cases found : members.records.get target.member with
  | none =>
    rw [found] at run
    cases run
    exact .refl _ _
  | some record =>
    simp only [found] at run
    rcases bind_ok.mp run with ⟨⟨kept, settled⟩, settles, finish⟩
    rcases settle_tends found faithful settles with ⟨tends, stays⟩
    cases kept with
    | none =>
      cases finish
      exact tends
    | some record' =>
      rcases stays record' rfl with ⟨resides, desired⟩
      dsimp only at finish
      cases failure : settled.tryFailure target record' with
      | none =>
        rw [failure] at finish
        cases finish
        exact tends
      | some failing =>
        rw [failure] at finish
        rcases tryFailure_tends failure with ⟨unlinked, slots⟩
        rcases bind_ok.mp finish with ⟨⟨failed, backoff''⟩, applied, done⟩
        cases done
        rw [← slots] at resides
        exact tends.trans (unlinked.trans (applyFailure_tends resides desired applied))

/-- A resumed member changes its health, and may come into the ring. -/
theorem tryResume_moves (members : Members I A n) (i : Fin n) (record : Record I A)
    (ready : Ready) :
    (∀ j ∈ (members.tryResume i record ready).2.records.ring, j ∈ members.records.ring ∨ j = i) ∧
      (members.tryResume i record ready).2 =
        { members.edit i fun _ => (record.health.tryReady ready).2 with
          records := (members.tryResume i record ready).2.records } ∧
      (members.tryResume i record ready).2.records.slots =
        (members.edit i fun _ => (record.health.tryReady ready).2).records.slots := by
  unfold Members.tryResume
  cases result : (record.health.tryReady ready).1 with
  | error exhausted =>
    simp only [result]
    exact ⟨fun j linked => .inl linked, trivial, trivial⟩
  | ok done =>
    simp only [result]
    refine ⟨?_, trivial, rfl⟩
    intro j linked
    unfold Table.link at linked
    dsimp only at linked
    split at linked
    · exact Cycle.mem_push.mp linked
    · exact .inl linked

theorem promote_tends {result : Except Exhausted Unit}
    (run : members.tryPromote setup now = .ok (result, members')) :
    Tends false members members' := by
  unfold Members.tryPromote at run
  cases earliest : setup.first members.retries with
  | none =>
    rw [earliest] at run
    cases run
    exact .refl _ _
  | some i =>
    simp only [earliest] at run
    cases retry : members.retries i with
    | none =>
      rw [retry] at run
      cases run
      exact .refl _ _
    | some entry =>
      simp only [retry] at run
      split at run
      · cases run
        exact .refl _ _
      · cases found : members.records.get ⟨i, entry.1⟩ with
        | none =>
          rw [found] at run
          cases run
        | some record =>
          simp only [found] at run
          split at run
          · cases run
          · have same := congrArg Prod.snd (Except.ok.inj run)
            dsimp only at same
            subst same
            let waiting : Members I A n :=
              { members with retries := update members.retries i none }
            have steady : Tends false waiting
                (waiting.edit i fun _ => (record.health.tryReady .probe).2) := by
              apply Tends.edit
              intro other resides
              have resides' : (members.records.slots i).resident = some record :=
                (Table.get_some.mp found).2
              have same := resides.symm.trans resides'
              cases same
              exact tryReady_steady record.health .probe
            rcases tryResume_moves waiting i record .probe with ⟨ring, whole, slots⟩
            refine ⟨?_, ?_, ?_, ?_⟩
            · rw [whole]
              rfl
            · rw [whole]
              rfl
            · intro j
              rw [slots]
              exact steady.slot j
            · -- The member that comes into the ring waited for its retry.
              intro j active
              left
              rcases active with linked | waits
              · rcases ring j linked with before | rfl
                · exact .inl before
                · exact .inr (by simp [retry])
              · rw [whole] at waits
                right
                intro missing
                apply waits
                show update members.retries i none j = none
                by_cases same : j = i
                · rw [same, update_self]
                · rw [update_of_ne same, missing]

theorem take_tends (members : Members I A n) (setup : Setup O n) (i : Fin n)
    (record : Record I A) : Tends false members (members.take setup i record) := by
  -- The ring turns, or the member leaves it for its probe; then its owners are written.
  have owned : ∀ {records : Table n (Record I A)}, Tends false members { members with records } →
      Tends false members { members with
        records := if setup.authoritative then records
          else records.edit i (.withHealth fun h => { h with owners := h.owners + 1 }) } := by
    intro records turned
    by_cases authority : setup.authoritative = true
    · rw [if_pos authority]
      exact turned
    · rw [if_neg authority]
      exact turned.trans (.edit fun record _ => .of_eq rfl rfl rfl)
  unfold Members.take
  cases record.health.ready with
  | healthy =>
    exact owned (.reorder rfl (fun j linked => .inl (Table.mem_advance.mp linked))
      fun _ waits => .inl waits)
  | probe => exact owned ((Tends.unlink i).trans (.edit fun record _ => .of_eq rfl rfl rfl))

theorem choose_tends {eligible : I → Bool} {selection : Selection A n}
    (run : members.choose setup now eligible = .ok (selection, members')) :
    Tends false members members' := by
  unfold Members.choose at run
  rcases bind_ok.mp run with ⟨⟨promoted, promoting⟩, promotes, finish⟩
  have tends := promote_tends promotes
  cases promoted with
  | error => cases finish; exact tends
  | ok =>
    rcases skip_spec eligible promoting.desired promoting.records with ⟨slots, order⟩
    have turned : Tends false promoting { promoting with
        records := (Members.skip eligible promoting.desired promoting.records).2 } :=
      .reorder slots (fun j linked => .inl ((order j).mp linked)) fun _ waits => .inl waits
    dsimp only at finish
    split at finish
    · cases finish
      exact tends.trans (turned.trans (take_tends ..))
    · split at finish
      · cases finish
        exact tends.trans turned
      · cases finish
        exact tends.trans turned

theorem recover_tends {retained : I → Bool} {peer : Peer I n}
    (run : members.recover target retained = .ok (peer, members')) :
    Tends true members members' := by
  unfold Members.recover at run
  dsimp only at run
  cases found : members.records.get target.member with
  | none =>
    rw [found] at run
    cases run
    exact .refl _ _
  | some record =>
    have resides := (Table.get_some.mp found).2
    simp only [found] at run
    split at run
    · cases run
      exact .refl _ _
    · split at run
      · cases run
        exact .refl _ _
      · rename_i desired
        have desired : record.health.demand ≠ none := by
          simpa [Record.isDesired, ← Option.isSome_iff_ne_none] using desired
        have readied : Tends true members (members.edit target.member.slot
            fun _ => (record.health.tryReady .healthy).2) := by
          apply Tends.edit
          intro other resides'
          rw [resides] at resides'
          cases resides'
          exact (tryReady_steady record.health .healthy).weaken
        split at run
        · split at run
          · split at run
            · cases run
              exact readied
            · cases run
              refine ⟨rfl, rfl, readied.slot, ?_⟩
              intro j active
              exact .inl (active.imp (fun linked => (Table.mem_unlink.mp linked).1) id)
          · cases run
            exact .refl _ _
        · cases idle : record.health.idle with
          | exhausted =>
            rw [idle] at run
            cases run
            exact .refl _ _
          | probing =>
            simp only [idle] at run
            have resumed : Tends true members
                (members.tryResume target.member.slot record .healthy).2 :=
              tryResume_tends (fun _ => rfl) resides desired
            split at run
            · rename_i next result
              cases run
              rw [result] at resumed
              exact resumed
            · rename_i exhausted next result
              cases run
              rw [result] at resumed
              exact resumed
          | backoff =>
            simp only [idle] at run
            rcases bind_ok.mp run with ⟨unparked, unparks, finish⟩
            have tends := unpark_tends unparks
            have resides' : (unparked.records.slots target.member.slot).resident =
                some (record.withHealth fun h => { h with idle := .exhausted }) := by
              unfold Members.unpark at unparks
              split at unparks
              · cases unparks
              · split at unparks
                · cases unparks
                  simp [resides]
                · cases unparks
            have resumed : Tends true unparked (unparked.tryResume target.member.slot
                (record.withHealth fun h => { h with idle := .exhausted }) .healthy).2 :=
              tryResume_tends (fun _ => rfl) resides' desired
            split at finish
            · rename_i next result
              cases finish
              rw [result] at resumed
              exact tends.trans resumed
            · rename_i exhausted next result
              cases finish
              rw [result] at resumed
              exact tends.trans resumed

theorem isRetained_tends (members : Members I A n) (member : Key n) (retained : I → Bool) :
    Tends false members (members.isRetained member retained).2 := by
  unfold Members.isRetained
  split
  · exact .refl _ _
  · split
    · exact .refl _ _
    · exact .edit fun record _ => ⟨by simp, Nat.le_refl _, .inl (Nat.le_refl _)⟩

theorem setDemand_tends (members : Members I A n) (demand : I → Demand) :
    Tends false members (members.setDemand demand).2 := by
  -- Over the positions that are left.
  have run : ∀ (left : List (Fin n)) (state : Bool × Members I A n),
      Tends false state.2 (left.foldl (Members.setDemandOf demand) state).2 := by
    intro left
    induction left with
    | nil => exact fun state => .refl _ _
    | cons i left ih =>
      intro state
      have next : Tends false state.2 (Members.setDemandOf demand state i).2 := by
        unfold Members.setDemandOf
        cases resides : (state.2.records.slots i).resident with
        | none => exact .refl _ _
        | some record =>
          dsimp only
          cases wanted : record.health.demand with
          | none => exact .refl _ _
          | some previous =>
            apply Tends.edit
            intro other resides'
            rw [resides] at resides'
            cases resides'
            exact ⟨by simp [wanted], Nat.le_refl _, .inl (Nat.le_refl _)⟩
      exact next.trans (ih _)
  exact run (List.finRange n) (false, members)

end Dope.Manifold.Service
