import Dope.Manifold.Service.Reconciles

/-! # Snapshots of a reachable pool

In every reachable state a snapshot is refused whole, and then nothing changes, or it
is applied whole.
-/

namespace Dope.Manifold.Service

open Dope.Round Dope.Run Dope.Tally

variable {I A O P X E : Type} {n m N : Nat} [DecidableEq I] {setup : Setup O n}
  {members between members' : Members I A n} {claims : Fin m → Option (Claim n)}
  {snapshot : Snapshot I A N} {entries : List (Entry I A n)}

namespace Reconciles

theorem exact_ (h : Reconciles setup members between members' snapshot entries)
    (endpoint : Endpoint I A) : endpoint ∈ snapshot.endpoints ↔ ∃ i record,
      (members'.records.slots i).resident = some record ∧ record.isDesired = true ∧
        record.id = endpoint.id ∧ record.addr = endpoint.addr := by
  constructor
  · intro mem
    rcases h.entry_of mem with ⟨entry, mem', rfl⟩
    rcases h.resident mem' with ⟨record, resides, desired, id, addr⟩
    exact ⟨entry.slot, record, resides, desired, id, addr⟩
  · rintro ⟨i, record, resides, desired, id, addr⟩
    rcases h.desired resides desired with ⟨entry, mem, rfl⟩
    rcases h.resident mem with ⟨record', resides', -, id', addr'⟩
    rw [resides] at resides'
    cases resides'
    have same : endpoint = entry.value := by
      cases endpoint
      cases value : entry.value
      simp_all
    rw [same]
    exact h.value_mem mem

theorem distinct (h : Reconciles setup members between members' snapshot entries) (i j : Fin n)
    (record record' : Record I A) (resides : (members'.records.slots i).resident = some record)
    (resides' : (members'.records.slots j).resident = some record')
    (desired : record.isDesired = true) (desired' : record'.isDesired = true)
    (same : record.id = record'.id) : i = j := by
  rcases h.desired resides desired with ⟨entry, mem, rfl⟩
  rcases h.desired resides' desired' with ⟨other, mem', rfl⟩
  rcases h.resident mem with ⟨found, there, -, id, -⟩
  rcases h.resident mem' with ⟨found', there', -, id', -⟩
  rw [resides] at there
  rw [resides'] at there'
  cases there
  cases there'
  rw [h.single mem mem' (id.symm.trans (same.trans id'))]

theorem stays_of_id (ids : (snapshot.endpoints.map Endpoint.id).Nodup) {i : Fin n}
    {record : Record I A} (resides : (members.records.slots i).resident = some record)
    (desired : record.isDesired = true) {k : Nat} {endpoint : Endpoint I A}
    (found : snapshot.endpoints[k]? = some endpoint) (same : endpoint.id = record.id) :
    members.stays snapshot.endpoints i = some k := by
  rcases List.getElem?_eq_some_iff.mp found with ⟨short, here⟩
  rw [Members.stays, resides, Option.bind_some, Members.staysFor, if_pos desired,
    List.findIdx?_eq_some_iff_getElem]
  refine ⟨short, by simp [here, same], ?_⟩
  intro j less
  simp only [decide_eq_true_eq]
  intro earlier
  have both : (snapshot.endpoints.map Endpoint.id)[j]? =
      (snapshot.endpoints.map Endpoint.id)[k]? := by
    rw [List.getElem?_map, List.getElem?_map, found, List.getElem?_eq_getElem (by omega),
      Option.map_some, Option.map_some, ← earlier, same]
  have inside : j < (snapshot.endpoints.map Endpoint.id).length := by
    rw [List.length_map]
    omega
  have equal := (List.getElem?_inj inside ids).mp both
  omega

section

variable (h : Reconciles setup members between members' snapshot entries)

include h

theorem kept (key : Key n) (record : Record I A) (found : members.records.get key = some record)
    (desired : record.isDesired = true) (endpoint : Endpoint I A)
    (mem : endpoint ∈ snapshot.endpoints) (same : endpoint.id = record.id) :
    members'.records.get key = some { record with addr := endpoint.addr } ∧
      members'.retries key.slot = members.retries key.slot ∧
      (key.slot ∈ members'.records.ring ↔ key.slot ∈ members.records.ring) := by
  rcases Table.get_some.mp found with ⟨named, resides⟩
  rcases h.entry_of mem with ⟨entry, mem', rfl⟩
  have placed := h.placed mem'
  have current := (h.current mem').2.2
  rcases h.serves entry mem' with ⟨k, at_, serves⟩
  have stays := stays_of_id h.ids resides desired at_ same
  cases entry with
  | new vacant value => exact absurd stays (serves key.slot)
  | keep i value =>
    have here : i = key.slot := h.sized.stays_inj serves stays
    subst here
    have slot := placed.2 record resides
    refine ⟨?_, placed.1, ?_⟩
    · rw [Table.get_some, slot]
      exact ⟨named, rfl⟩
    · have ring := h.commits.ring
      rw [show (key.slot ∈ members'.records.ring) ↔ key.slot ∈ between.records.ring from current,
        ring, List.mem_append]
      constructor
      · rintro (before | comes)
        · exact (List.mem_filter.mp before).1
        · rcases List.mem_map.mp comes with ⟨other, comes, equal⟩
          rcases List.mem_filter.mp comes with ⟨mem'', comes⟩
          have one := List.inj_on_of_nodup_map h.slots mem'' mem' equal
          subst one
          simpa [Entry.comes] using comes
      · intro linked
        right
        refine List.mem_map.mpr ⟨.keep key.slot value, List.mem_filter.mpr ⟨mem', ?_⟩, rfl⟩
        simpa [Entry.comes] using linked

theorem fresh (endpoint : Endpoint I A) (mem : endpoint ∈ snapshot.endpoints)
    (unknown : ∀ i record, (members.records.slots i).resident = some record → record.isDesired =
      true → record.id ≠ endpoint.id) :
    ∃ i ∈ members'.records.ring,
      (members'.records.slots i).resident = some (.new endpoint.id endpoint.addr) := by
  rcases h.entry_of mem with ⟨entry, mem', rfl⟩
  have placed := h.placed mem'
  have current := (h.current mem').2.2
  rcases h.serves entry mem' with ⟨k, at_, serves⟩
  cases entry with
  | keep i value =>
    rcases stays_some serves with ⟨record, endpoint, resides, desired, found, id⟩
    rw [at_] at found
    cases found
    refine absurd id (unknown i record resides ?_)
    rwa [Record.isDesired, Option.isSome_iff_ne_none]
  | new vacant value =>
    refine ⟨vacant.slot, ?_, placed.1⟩
    rw [show (vacant.slot ∈ members'.records.ring) ↔ vacant.slot ∈ between.records.ring from
      current, h.commits.ring, List.mem_append]
    right
    exact List.mem_map.mpr ⟨.new vacant value, List.mem_filter.mpr ⟨mem', rfl⟩, rfl⟩

/-- A member that nobody kept is in no ring from then on. -/
theorem ring_current {i : Fin n} (linked : i ∈ members'.records.ring) :
    ∃ entry ∈ entries, entry.slot = i := by
  by_contra none
  have away : i ∉ entries.map Entry.slot := by
    intro mem
    rcases List.mem_map.mp mem with ⟨entry, mem, same⟩
    exact none ⟨entry, mem, same⟩
  have before := ((h.prunes.ring i).mp linked).1
  rw [h.commits.ring, List.mem_append] at before
  rcases before with old | comes
  · rcases h.other away with ⟨-, out, -, -⟩ | ⟨never, -, -⟩
    · exact out linked
    · exact never (h.sized.active i (.inl (List.mem_filter.mp old).1))
  · rcases List.mem_map.mp comes with ⟨entry, mem, same⟩
    exact none ⟨entry, (List.mem_filter.mp mem).1, same⟩

theorem order :
    (members'.records.ring.filterMap fun i =>
      (members'.records.slots i).resident.map Record.id).Sublist
        (snapshot.endpoints.map Endpoint.id) := by
  have sub := h.prunes.order
  rw [h.commits.ring] at sub
  -- Nothing is left of what was scheduled before and is not an entry.
  rcases List.sublist_append_iff.mp sub with ⟨old, came, split, sub', sub''⟩
  have empty : old = [] := by
    rw [List.eq_nil_iff_forall_not_mem]
    intro i mem
    have linked : i ∈ members'.records.ring := by
      rw [split]
      exact List.mem_append_left _ mem
    rcases h.ring_current linked with ⟨entry, mem', same⟩
    have away := (List.mem_filter.mp (sub'.subset mem)).2
    simp only [decide_eq_true_eq] at away
    exact away (List.mem_map.mpr ⟨entry, mem', same⟩)
  rw [split, empty, List.nil_append]
  refine (sub''.filterMap _).trans ?_
  rw [List.filterMap_map]
  have ids : (entries.filter (Entry.comes members)).filterMap
      ((fun i => (members'.records.slots i).resident.map Record.id) ∘ Entry.slot) =
        (entries.filter (Entry.comes members)).map fun entry => entry.value.id := by
    rw [← List.filterMap_eq_map]
    apply List.filterMap_congr
    intro entry mem
    rcases h.resident (List.mem_filter.mp mem).1 with ⟨record, resides, -, id, -⟩
    simp [resides, id]
  rw [ids, ← h.values, List.map_map]
  exact List.filter_sublist.map _

theorem owned (preserve : setup.authoritative = false) (key : Key n) (record : Record I A)
    (found : members.records.get key = some record) (owners : record.health.owners ≠ 0) :
    ∃ record', members'.records.get key = some record' ∧ record'.id = record.id ∧
      record'.health.owners = record.health.owners := by
  rcases Table.get_some.mp found with ⟨named, resides⟩
  by_cases mem : key.slot ∈ entries.map Entry.slot
  · rcases List.mem_map.mp mem with ⟨entry, mem, same⟩
    have placed := h.placed mem
    have fits := h.fits entry mem
    cases entry with
    | keep i value =>
      have same : i = key.slot := same
      subst same
      refine ⟨{ record with addr := value.addr }, ?_, rfl, rfl⟩
      rw [Table.get_some, placed.2 record resides]
      exact ⟨named, rfl⟩
    | new vacant value =>
      cases vacant with
      | free i =>
        have same : i = key.slot := same
        subst same
        have empty : (members.records.slots key.slot).resident = none := fits
        rw [resides] at empty
        cases empty
      | reuse i =>
        have same : i = key.slot := same
        subst same
        rcases fits with ⟨record', resides', spare⟩
        rw [resides] at resides'
        cases resides'
        rw [preserve] at spare
        rcases spare with never | unowned
        · cases never
        · exact absurd unowned owners
  · rcases h.other mem with ⟨-, -, -, pruned⟩ | ⟨-, same, -⟩
    · have after := pruned record resides
      rw [if_pos ⟨preserve, owners⟩] at after
      rcases after with ⟨generation, record', resides', id, -, -, owners', -⟩
      exact ⟨record', Table.get_some.mpr ⟨generation.trans named, resides'⟩, id, owners'⟩
    · exact ⟨record, Table.get_some.mpr ⟨by rw [same]; exact named, by rw [same]; exact resides⟩,
        rfl, rfl⟩

theorem named (key : Key n) (record record' : Record I A)
    (found : members.records.get key = some record)
    (found' : members'.records.get key = some record') :
    record'.id = record.id ∧ record'.health.failures = record.health.failures := by
  rcases Table.get_some.mp found with ⟨generation, resides⟩
  rcases Table.get_some.mp found' with ⟨generation', resides'⟩
  by_cases mem : key.slot ∈ entries.map Entry.slot
  · rcases List.mem_map.mp mem with ⟨entry, mem, same⟩
    have placed := h.placed mem
    cases entry with
    | keep i value =>
      have same : i = key.slot := same
      subst same
      rw [placed.2 record resides] at resides'
      cases resides'
      exact ⟨rfl, rfl⟩
    | new vacant value =>
      have same : vacant.slot = key.slot := same
      rw [← same] at resides generation generation'
      have older := placed.2 record resides
      omega
  · rcases h.other mem with ⟨-, -, -, pruned⟩ | ⟨-, same, -⟩
    · have after := pruned record resides
      split at after
      · rcases after with ⟨-, record'', resides'', id, -, -, -, failures⟩
        rw [resides'] at resides''
        cases resides''
        exact ⟨id, failures⟩
      · rw [after] at resides'
        cases resides'
    · rw [same, resides] at resides'
      cases resides'
      exact ⟨rfl, rfl⟩

/-- The members of a snapshot that was applied are sized. -/
theorem sizes :
    Sized { members' with revision := snapshot.revision, desired := snapshot.endpoints.length } := by
  have wanted : ∀ entry ∈ entries, members'.Desired entry.slot := by
    intro entry mem
    rcases h.resident mem with ⟨record, resides, desired, -, -⟩
    refine ⟨record, resides, ?_⟩
    rwa [Record.isDesired, Option.isSome_iff_ne_none] at desired
  refine ⟨?_, ?_, ?_⟩
  · intro i active
    by_cases mem : i ∈ entries.map Entry.slot
    · rcases List.mem_map.mp mem with ⟨entry, held, rfl⟩
      exact wanted entry held
    · rcases active with linked | waits
      · rcases h.ring_current linked with ⟨entry, mem', same⟩
        exact absurd (List.mem_map.mpr ⟨entry, mem', same⟩) mem
      · have waits : members'.retries i ≠ none := waits
        rcases h.other mem with ⟨-, -, missing, -⟩ | ⟨never, -, same⟩
        · exact absurd missing waits
        · rw [same] at waits
          exact absurd (h.sized.active i (.inr waits)) never
  · show snapshot.endpoints.length = _
    rw [← h.values, List.length_map, ← List.length_map Entry.slot,
      ← List.toFinset_card_of_nodup h.slots]
    congr 1
    ext i
    simp only [List.mem_toFinset, Finset.mem_filter, Finset.mem_univ, true_and]
    constructor
    · intro mem
      rcases List.mem_map.mp mem with ⟨entry, held, rfl⟩
      exact wanted entry held
    · rintro ⟨record, resides, desired⟩
      have desired : record.isDesired = true := by
        rwa [Record.isDesired, Option.isSome_iff_ne_none]
      rcases h.desired resides desired with ⟨entry, mem, same⟩
      exact List.mem_map.mpr ⟨entry, mem, same⟩
  · intro i j record record' resides resides' desired desired' same
    refine h.distinct i j record record' resides resides' ?_ ?_ same
    · rwa [Record.isDesired, Option.isSome_iff_ne_none]
    · rwa [Record.isDesired, Option.isSome_iff_ne_none]

theorem applied :
    Applied setup.authoritative members
      { members' with revision := snapshot.revision, desired := snapshot.endpoints.length }
      snapshot where
  revision := rfl
  exact_ := h.exact_
  distinct := h.distinct
  kept := h.kept
  fresh := h.fresh
  order := h.order
  owned := h.owned
  named := h.named

end

end Reconciles

/-! ## Application -/

/-- What a snapshot does: it is stale, repeats an id, finds no room, or is applied. -/
def Reconciled (setup : Setup O n) (m : Nat) (members members' : Members I A n)
    (snapshot : Snapshot I A N) : Except Reconcile Change → Prop
  | .error (.stale current incoming) => members' = members ∧ current = members.revision ∧
      incoming = snapshot.revision ∧ incoming ≤ current
  | .error (.duplicate first second) => members' = members ∧
      members.revision < snapshot.revision ∧ FirstPair snapshot.endpoints first second
  | .error (.capacity actual limit) => members' = members ∧
      members.revision < snapshot.revision ∧ (snapshot.endpoints.map Endpoint.id).Nodup ∧
      actual = snapshot.endpoints.length ∧ limit < actual ∧
      (n = N + (if setup.authoritative then 0 else m) → ∃ i, members.Spent setup i)
  | .ok change => members.revision < snapshot.revision ∧
      (snapshot.endpoints.map Endpoint.id).Nodup ∧
      Applied setup.authoritative members members' snapshot ∧
      change.added + change.retained = snapshot.endpoints.length ∧
      change.retained + change.retired = members.desired

theorem tryApply_reconciles (sized : Sized members)
    (sound : Sound setup.authoritative members claims) (snapshot : Snapshot I A N) :
    ∃ result members', members.tryApply setup snapshot = .ok (result, members') ∧
      Sized members' ∧ Reconciled setup m members members' snapshot result := by
  unfold Members.tryApply
  by_cases stale : snapshot.revision ≤ members.revision
  · rw [if_pos stale]
    exact ⟨_, members, rfl, sized, rfl, rfl, rfl, stale⟩
  · rw [if_neg stale]
    have newer : members.revision < snapshot.revision := by omega
    cases repeats : Members.duplicate [] 0 snapshot.endpoints with
    | some pair => exact ⟨_, members, rfl, sized, rfl, newer, duplicate_some repeats List.nodup_nil⟩
    | none =>
      have ids : (snapshot.endpoints.map Endpoint.id).Nodup :=
        duplicate_none repeats List.nodup_nil
      have found := scan_found sized setup snapshot.endpoints N
      have total := retained_add sized found
      have held : (members.scan setup snapshot.endpoints N).retained =
          members.retained snapshot.endpoints := by
        rw [found.retained, length_filterMap, Members.retained]
      dsimp only
      cases allotted : Members.allot (members.scan setup snapshot.endpoints N).keep 0
          (members.scan setup snapshot.endpoints N).spare snapshot.endpoints with
      | none =>
        refine ⟨_, members, rfl, sized, rfl, newer, ids, rfl, ?_, ?_⟩
        · have less := allot_none allotted
          rw [← List.range_eq_range'] at less
          omega
        · intro room
          exact capacity_spent sized sound room snapshot.bounded allotted
      | some entries =>
        rcases scan_spec members setup snapshot.endpoints N with ⟨seen, scanned⟩
        rcases allot_spec scanned.keep (fun vacant mem => (scanned.spare vacant mem).1)
          allotted with ⟨fits, sub⟩
        -- A spare position is none that a member stays at.
        have free : ∀ p i, (members.scan setup snapshot.endpoints N).keep p = some i →
            ∀ vacant ∈ (members.scan setup snapshot.endpoints N).spare, vacant.slot ≠ i := by
          intro p i kept vacant mem same
          rw [found.spare] at mem
          rcases List.mem_filterMap.mp (List.mem_of_mem_take mem) with ⟨j, -, spare⟩
          unfold Members.spareAt at spare
          split at spare
          · rename_i none
            rw [← (vacancy_fits spare).1, same, ((found.keep p i).mp kept).2] at none
            cases none
          · cases spare
        have single : ∀ p q i, (members.scan setup snapshot.endpoints N).keep p = some i →
            (members.scan setup snapshot.endpoints N).keep q = some i → p = q := by
          intro p q i kept kept'
          have one := ((found.keep p i).mp kept).2.symm.trans ((found.keep q i).mp kept').2
          exact Option.some.inj one
        rcases allot_some single scanned.nodup free allotted with ⟨values, slots, serves⟩
        rcases commitAll_spec sound entries fits (scanned.nodup.sublist sub) with
          ⟨committed, -⟩
        rcases commitAll_commits entries fits slots with ⟨commits, keys⟩
        rcases prune_spec committed (Members.commitAll entries members).1 with
          ⟨members', run, -, -⟩
        have reconciles : Reconciles setup members (Members.commitAll entries members).2
            members' snapshot entries := by
          refine ⟨sized, ids, values, slots, fits, ?_, commits, ?_⟩
          · intro entry mem
            rcases serves entry mem with ⟨k, at_, serves⟩
            refine ⟨k, at_, ?_⟩
            cases entry with
            | keep i value =>
              dsimp only at serves
              rw [Nat.zero_add] at serves
              exact ((found.keep k i).mp serves).2
            | new vacant value =>
              intro i stays
              have none := serves.1
              rw [Nat.zero_add, (found.keep k i).mpr ⟨List.mem_finRange i, stays⟩] at none
              cases none
          · rw [← keys]
            exact foldlM_pruneOf (List.nodup_finRange n) committed run
        simp only [run, ok_bind]
        refine ⟨_, _, rfl, reconciles.sizes, newer, ids, reconciles.applied, ?_, ?_⟩
        · dsimp only
          omega
        · have le := retained_le sized snapshot.endpoints
          dsimp only
          omega

/-! ## Runs -/

/-- What an input does to the members: a snapshot reconciles them first, and the rest of
it, as any other input, tends them; only a connection makes them recover. -/
def Input.Tends (setup : Setup O n) (members members' : Members I A n) :
    Input I A O X E n N → Prop
  | .trySync snapshot _ => ∃ result between,
      members.tryApply setup snapshot = .ok (result, between) ∧ Service.Tends false between members'
  | .attach _ _ => Service.Tends true members members'
  | _ => Service.Tends false members members'

namespace World

variable {world world' : World I A O X E n m}

omit [DecidableEq I] in
/-- Neither a sweep nor a refresh concerns the members. -/
theorem armed_membership (pool : Pool I A O X n m) (retired capacity : Nat) :
    (Pool.refresh setup (if retired ≠ 0 then pool.arm capacity else pool)).membership =
      pool.membership := by
  split
  · rfl
  · rfl

theorem trySync_tends {pool pool' : Pool I A O X n m} (inv : pool.Inv setup) {capacity : Nat}
    {result : Except Reconcile Change}
    (run : pool.trySync setup snapshot capacity = .ok (result, pool')) :
    ∃ between, pool.membership.tryApply setup snapshot = .ok (result, between) ∧
      Service.Tends false between pool'.membership := by
  rcases tryApply_spec inv.sound snapshot with ⟨result', between, applies, sound, -⟩
  simp only [Pool.trySync, applies, ok_bind] at run
  refine ⟨between, ?_⟩
  cases result' with
  | error error =>
    cases run
    exact ⟨applies, .refl _ _⟩
  | ok change =>
    by_cases authority : setup.authoritative = true
    · simp only [authority, if_true] at run
      rcases bind_ok.mp run with ⟨reset, resets, finish⟩
      have kept := Pool.resetFront_tended sound.faithful (fun target update members' removes => by
        rcases bind_ok.mp removes with ⟨⟨update', after⟩, cancels, done⟩
        cases done
        exact cancel_tends sound.faithful cancels) resets
      have same : Pool.refresh setup
          (if change.retired ≠ 0 then reset.arm capacity else reset) = pool' :=
        congrArg Prod.snd (Except.ok.inj finish)
      cases congrArg Prod.fst (Except.ok.inj finish)
      refine ⟨applies, ?_⟩
      rw [← same, armed_membership]
      exact kept
    · simp only [authority] at run
      let synced : Pool I A O X n m := { pool with membership := between }
      have same : Pool.refresh setup
          (if change.retired ≠ 0 then synced.arm capacity else synced) = pool' :=
        congrArg Prod.snd (Except.ok.inj run)
      cases congrArg Prod.fst (Except.ok.inj run)
      refine ⟨applies, ?_⟩
      rw [← same, armed_membership]
      exact .refl _ _

theorem step_tends (inv : world.Inv setup) (input : Input I A O X E n N) {output : Output I E}
    (run : world.step setup input = .ok (output, world')) :
    input.Tends setup world.pool.membership world'.pool.membership := by
  have faithful := inv.pool.sound.faithful
  cases input with
  | poll now source submit =>
    rcases bind_ok.mp run with ⟨⟨opening, pool'⟩, polls, finish⟩
    cases finish
    exact Pool.poll_tended faithful polls
  | trySync snapshot capacity =>
    rcases bind_ok.mp run with ⟨⟨result, pool'⟩, syncs, finish⟩
    cases finish
    rcases trySync_tends inv.pool syncs with ⟨between, applies, tends⟩
    exact ⟨result, between, applies, tends⟩
  | attach key source =>
    rcases bind_ok.mp run with ⟨⟨connection, pool'⟩, attaches, finish⟩
    cases finish
    exact Pool.attach_tended attaches
  | disconnect key reason now =>
    rcases bind_ok.mp run with ⟨pool', disconnects, finish⟩
    cases finish
    rcases bind_ok.mp disconnects with ⟨⟨cause, retired⟩, retires, done⟩
    have tended := Pool.retire_tended faithful retires
    cases cause with
    | none =>
      cases done
      exact tended
    | some cause =>
      cases done
      exact tended
  | fail key cause now =>
    rcases bind_ok.mp run with ⟨pool', fails, finish⟩
    cases finish
    rcases bind_ok.mp fails with ⟨⟨update, failed⟩, failing, done⟩
    have tended := Pool.failed_tended faithful failing
    dsimp only at done
    split at done
    · cases done
      exact tended
    · cases done
      exact tended
  | kill key cause =>
    rcases bind_ok.mp run with ⟨pool', kills, finish⟩
    cases finish
    exact Pool.kill_tended faithful kills
  | rejected key error =>
    rcases bind_ok.mp run with ⟨pool', rejects, finish⟩
    cases finish
    unfold Pool.rejected at rejects
    split at rejects
    · exact Pool.reject_tended faithful rejects
    · cases rejects
      exact .refl _ _
  | setDemand source capacity =>
    cases run
    show Service.Tends false world.pool.membership
      (world.pool.setDemand setup source capacity).membership
    unfold Pool.setDemand
    dsimp only
    split
    · exact setDemand_tends ..
    · exact setDemand_tends ..
  | isRetiredAt key source =>
    cases run
    show Service.Tends false world.pool.membership
      (world.pool.isRetiredAt key source).2.membership
    unfold Pool.isRetiredAt
    split
    · exact .refl _ _
    · dsimp only
      split
      · exact isRetained_tends ..
      · exact isRetained_tends ..
  | nextRetirement =>
    cases run
    show Service.Tends false world.pool.membership world.pool.nextRetirement.2.membership
    unfold Pool.nextRetirement
    split
    · exact .refl _ _
    · exact .refl _ _

theorem sized_invariant (A X E : Type) (m N : Nat) (lawful : LawfulFirst setup.first) :
    (machine (I := I) A X E m N setup).Invariant
      fun world : World I A O X E n m => world.Inv setup ∧ Sized world.pool.membership where
  start world started := by
    refine ⟨(machine_invariant A X E m N lawful).start world started, ?_⟩
    rcases started with ⟨backoff, feedback, -, rfl⟩
    exact .new I A n
  step world input inv _ := by
    rcases step_keeps lawful inv.1 input with ⟨output, world', run, keeps⟩
    refine ⟨output, world', run, keeps.inv, ?_⟩
    have tends := step_tends inv.1 input run
    cases input with
    | trySync snapshot capacity =>
      rcases tends with ⟨result, between, applies, tends⟩
      rcases tryApply_reconciles inv.2 inv.1.pool.sound snapshot with
        ⟨result', between', applies', sized, -⟩
      rw [applies] at applies'
      cases applies'
      exact sized.tends tends
    | attach | poll | disconnect | fail | kill | rejected | setDemand | isRetiredAt | nextRetirement =>
      exact inv.2.tends tends

end World

/-- In every reachable state a snapshot is stale, repeats an id, finds no room, or is
applied; refused, it changes nothing, and room runs out only if the generations of a
position are spent. -/
theorem Pool.reachable_reconciles (A X E : Type) (m N : Nat) (setup : Setup O n)
    (lawful : LawfulFirst setup.first) {world : World I A O X E n m}
    (reached : (machine A X E m N setup).Reachable world) (snapshot : Snapshot I A N) :
    (world.pool.membership.desired = tally (fun record => record.health.demand ≠ none)
        fun i => (world.pool.membership.records.slots i).resident) ∧
      ∃ result members', world.pool.membership.tryApply setup snapshot = .ok (result, members') ∧
        Reconciled setup m world.pool.membership members' snapshot result := by
  rcases (World.sized_invariant A X E m N lawful).holds reached with ⟨inv, sized⟩
  rcases tryApply_reconciles sized inv.pool.sound snapshot with ⟨result, members', run, -, done⟩
  exact ⟨sized.count, result, members', run, done⟩

section Examples

/-- Four positions, under the Preserve policy. -/
def Setup.four : Setup Unit 4 := ⟨false, (), 1000, 3, 3, least⟩

def Snapshot.earlier : Snapshot Nat Nat 3 := ⟨1, [⟨7, 0⟩, ⟨8, 0⟩, ⟨9, 0⟩], by simp⟩

def Snapshot.later : Snapshot Nat Nat 3 := ⟨2, [⟨8, 1⟩, ⟨6, 0⟩], by simp⟩

/-- Of three members the first has a dial. A later snapshot keeps the second and adds another
in the place of the third; the first retires. -/
theorem Pool.reachable_reconciles_example :
    ∃ (world : World Nat Nat Unit Unit Unit 4 1) (members' : Members Nat Nat 4),
      (machine Nat Unit Unit 1 3 Setup.four).Reachable world ∧
      world.pool.membership.tryApply Setup.four Snapshot.later =
        .ok (.ok (⟨1, 1, 2⟩ : Change), members') ∧
      Applied false world.pool.membership members' Snapshot.later ∧
      (members'.records.slots 0).resident =
        some ⟨7, 0, { Health.new with demand := none, owners := 1 }⟩ ∧
      members'.records.slots 2 = ⟨1, some (.new 6 0)⟩ := by
  have started : (machine (I := Nat) Nat Unit Unit 1 3 Setup.four).Reachable
      ⟨.new Setup.four Nat Nat 1 ⟨Plan.single, 0⟩ .silent, []⟩ :=
    .start ⟨_, _, .inl rfl, rfl⟩
  have synced := started.call (.trySync Snapshot.earlier 1) trivial rfl
  have reached := synced.call (.poll 0 Source.all fun _ _ => .submitted) trivial rfl
  rcases Pool.reachable_reconciles Nat Unit Unit 1 3 Setup.four least_lawful reached
    Snapshot.later with ⟨-, result, members', run, reconciled⟩
  have same : result = .ok ⟨1, 1, 2⟩ := by
    have first := congrArg (fun answer => answer.toOption.map Prod.fst) run
    exact (Option.some.inj first).symm
  subst same
  refine ⟨_, members', reached, run, reconciled.2.2.1, ?_, ?_⟩ <;> (cases run; rfl)

end Examples

end Dope.Manifold.Service
