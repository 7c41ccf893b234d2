import Dope.Manifold.Service.Tends

/-! # Scans of a snapshot

A scan finds for each endpoint the desired member of its identity, and takes spare
positions in order. Room runs out only if the generations of a position are spent.
-/

namespace Dope.Manifold.Service

open Dope.Round Dope.Run Dope.Tally

variable {I A O P X E : Type} {n m N : Nat} {setup : Setup O n} {members members' : Members I A n}
  {claims : Fin m → Option (Claim n)}

/-- The members of a set that is reached: those that are active are desired, the desired
ones are counted, and no two of them have one identity. -/
structure Sized (members : Members I A n) : Prop where
  active : ∀ i, members.Active i → members.Desired i
  count : members.desired =
    tally (fun record => record.health.demand ≠ none) fun i => (members.records.slots i).resident
  distinct : ∀ i j record record', (members.records.slots i).resident = some record →
    (members.records.slots j).resident = some record' → record.health.demand ≠ none →
    record'.health.demand ≠ none → record.id = record'.id → i = j

theorem Sized.new (I A : Type) (n : Nat) : Sized (Members.new I A n) where
  active i active := by
    rcases active with linked | waits
    · cases linked
    · exact absurd rfl waits
  count := by
    have empty : (fun i => ((Members.new I A n).records.slots i).resident) = fun _ => none := rfl
    rw [empty, tally_empty]
    rfl
  distinct := nofun

theorem Sized.tends {recovers : Bool} (sized : Sized members)
    (tends : Tends recovers members members') : Sized members' := by
  -- A desired resident was desired before.
  have before : ∀ i record', (members'.records.slots i).resident = some record' →
      record'.health.demand ≠ none → ∃ record, (members.records.slots i).resident = some record ∧
        record.health.demand ≠ none ∧ record'.id = record.id := by
    intro i record' resides' desired
    rcases tends.slot i with ⟨-, vacant, stays⟩ | ⟨-, -, -, gone, -⟩
    · cases resides : (members.records.slots i).resident with
      | none =>
        rw [vacant resides] at resides'
        cases resides'
      | some record =>
        rcases stays record resides with ⟨record'', resides'', id, -, steady⟩
        rw [resides'] at resides''
        cases resides''
        exact ⟨record, rfl, fun none => desired (steady.demand.mpr none), id⟩
    · rw [gone] at resides'
      cases resides'
  refine ⟨?_, ?_, ?_⟩
  · intro i active
    rcases tends.active i active with old | desired
    · exact tends.stays (sized.active i old)
    · exact desired
  · rw [tends.desired, sized.count]
    unfold tally
    congr 1
    apply Finset.filter_congr
    intro i _
    constructor
    · rintro ⟨record, resides, desired⟩
      exact tends.stays ⟨record, resides, desired⟩
    · rintro ⟨record', resides', desired⟩
      rcases before i record' resides' desired with ⟨record, resides, desired', -⟩
      exact ⟨record, resides, desired'⟩
  · intro i j record record' resides resides' desired desired' same
    rcases before i record resides desired with ⟨old, here, wanted, id⟩
    rcases before j record' resides' desired' with ⟨old', here', wanted', id'⟩
    exact sized.distinct i j old old' here here' wanted wanted' (id.symm.trans (same.trans id'))

variable {position : Nat} {i : Fin n}

section Scan

variable [DecidableEq I] {endpoints : List (Endpoint I A)}

/-- The endpoint that the member of a position stays for. -/
def Members.stays (members : Members I A n) (endpoints : List (Endpoint I A)) (i : Fin n) :
    Option Nat :=
  (members.records.slots i).resident.bind (Members.staysFor endpoints)

theorem stays_some (stays : members.stays endpoints i = some position) :
    ∃ record endpoint, (members.records.slots i).resident = some record ∧
      record.health.demand ≠ none ∧ endpoints[position]? = some endpoint ∧
      record.id = endpoint.id := by
  rcases Option.bind_eq_some_iff.mp stays with ⟨record, resides, stays⟩
  unfold Members.staysFor at stays
  split at stays
  · rename_i desired
    rcases List.findIdx?_eq_some_iff_getElem.mp stays with ⟨short, same, -⟩
    refine ⟨record, endpoints[position], resides, ?_, by simp [short], by simpa using same⟩
    rwa [Record.isDesired, Option.isSome_iff_ne_none] at desired
  · cases stays

theorem Sized.stays_inj (sized : Sized members) {j : Fin n}
    (stays : members.stays endpoints i = some position)
    (stays' : members.stays endpoints j = some position) : i = j := by
  rcases stays_some stays with ⟨record, endpoint, resides, desired, found, id⟩
  rcases stays_some stays' with ⟨record', endpoint', resides', desired', found', id'⟩
  rw [found] at found'
  cases found'
  exact sized.distinct i j record record' resides resides' desired desired' (id.trans id'.symm)

/-- A position that could be taken. -/
def Members.spareAt (setup : Setup O n) (members : Members I A n)
    (endpoints : List (Endpoint I A)) (i : Fin n) : Option (Vacant n) :=
  if members.stays endpoints i = none then members.vacancy setup i else none

/-- What a scan of some positions has found, exactly. -/
structure Found (setup : Setup O n) (members : Members I A n) (endpoints : List (Endpoint I A))
    (N : Nat) (seen : List (Fin n)) (scan : Scan n) : Prop where
  keep : ∀ position i, scan.keep position = some i ↔
    i ∈ seen ∧ members.stays endpoints i = some position
  retained : scan.retained = (seen.filterMap (members.stays endpoints)).length
  spare : scan.spare = (seen.filterMap (members.spareAt setup endpoints)).take N

theorem take_push {α : Type} (xs : List α) (a : α) (k : Nat) :
    (xs ++ [a]).take k = if (xs.take k).length < k then xs.take k ++ [a] else xs.take k := by
  by_cases short : xs.length < k
  · rw [List.take_of_length_le (by simp; omega), List.take_of_length_le (by omega), if_pos short]
  · rw [List.take_append_of_le_length (by omega), if_neg (by simp; omega)]

theorem scanOf_found {seen : List (Fin n)} {scan : Scan n} (sized : Sized members)
    (found : Found setup members endpoints N seen scan) (fresh : i ∉ seen) :
    Found setup members endpoints N (seen ++ [i]) (members.scanOf setup endpoints N scan i) := by
  unfold Members.scanOf
  cases stays : members.stays endpoints i with
  | some position =>
    have stays' : (members.records.slots i).resident.bind (Members.staysFor endpoints) =
        some position := stays
    have free : scan.keep position = none := by
      by_contra taken
      rcases Option.ne_none_iff_exists'.mp taken with ⟨j, kept⟩
      rcases (found.keep position j).mp kept with ⟨mem, other⟩
      exact fresh (sized.stays_inj stays other ▸ mem)
    simp only [stays', free, if_true]
    refine ⟨?_, ?_, ?_⟩
    · intro other j
      dsimp only
      by_cases same : other = position
      · subst same
        rw [Function.update_self, Option.some.injEq]
        constructor
        · rintro rfl
          exact ⟨by simp, stays⟩
        · rintro ⟨-, other⟩
          exact sized.stays_inj stays other
      · rw [Function.update_of_ne same, found.keep]
        constructor
        · rintro ⟨mem, other⟩
          exact ⟨List.mem_append_left _ mem, other⟩
        · rintro ⟨mem, at_⟩
          refine ⟨?_, at_⟩
          rcases List.mem_append.mp mem with mem | mem
          · exact mem
          · rw [List.mem_singleton.mp mem, stays] at at_
            cases at_
            exact absurd rfl same
    · simp [found.retained, stays]
    · rw [found.spare, List.filterMap_append]
      simp [Members.spareAt, stays]
  | none =>
    have stays' : (members.records.slots i).resident.bind (Members.staysFor endpoints) =
        none := stays
    have keep : ∀ position j, scan.keep position = some j ↔
        j ∈ seen ++ [i] ∧ members.stays endpoints j = some position := by
      intro position j
      rw [found.keep]
      constructor
      · rintro ⟨mem, other⟩
        exact ⟨List.mem_append_left _ mem, other⟩
      · rintro ⟨mem, at_⟩
        refine ⟨?_, at_⟩
        rcases List.mem_append.mp mem with mem | mem
        · exact mem
        · rw [List.mem_singleton.mp mem, stays] at at_
          cases at_
    have retained : scan.retained =
        ((seen ++ [i]).filterMap (members.stays endpoints)).length := by
      simp [found.retained, stays]
    simp only [stays']
    cases vacant : members.vacancy setup i with
    | none =>
      refine ⟨keep, retained, ?_⟩
      rw [found.spare, List.filterMap_append]
      simp [Members.spareAt, stays, vacant]
    | some vacant' =>
      have more : (seen ++ [i]).filterMap (members.spareAt setup endpoints) =
          seen.filterMap (members.spareAt setup endpoints) ++ [vacant'] := by
        simp [List.filterMap_append, Members.spareAt, stays, vacant]
      have spare := take_push (seen.filterMap (members.spareAt setup endpoints)) vacant' N
      dsimp only
      by_cases room : scan.spare.length < N
      · rw [if_pos room]
        refine ⟨keep, retained, ?_⟩
        rw [found.spare] at room ⊢
        rw [more, spare, if_pos room]
      · rw [if_neg room]
        refine ⟨keep, retained, ?_⟩
        rw [found.spare] at room ⊢
        rw [more, spare, if_neg room]

theorem scan_found (sized : Sized members) (setup : Setup O n) (endpoints : List (Endpoint I A))
    (N : Nat) : Found setup members endpoints N (List.finRange n)
      (members.scan setup endpoints N) := by
  -- Over the positions that are left, none of them seen.
  have run : ∀ (left seen : List (Fin n)) (scan : Scan n), (seen ++ left).Nodup →
      Found setup members endpoints N seen scan →
      Found setup members endpoints N (seen ++ left)
        (left.foldl (members.scanOf setup endpoints N) scan) := by
    intro left
    induction left with
    | nil =>
      intro seen scan _ found
      rw [List.append_nil]
      exact found
    | cons i left ih =>
      intro seen scan nodup found
      have split : seen ++ i :: left = (seen ++ [i]) ++ left := by simp
      rw [split] at nodup ⊢
      refine ih _ _ nodup (scanOf_found sized found ?_)
      intro mem
      have apart := List.disjoint_of_nodup_append (List.nodup_append.mp nodup).1
      exact apart mem List.mem_cons_self
  have started : Found setup members endpoints N [] ⟨fun _ => none, [], 0⟩ :=
    ⟨by simp, by simp, by simp⟩
  exact run _ [] _ (List.nodup_finRange n) started

/-! ## Room -/

omit [DecidableEq I] in
/-- Every endpoint that nobody stays for takes one of the spare positions. -/
theorem allot_none {keep : Nat → Option (Fin n)} {spare : List (Vacant n)}
    (full : Members.allot keep position spare endpoints = none) :
    spare.length < ((List.range' position endpoints.length).filter
      fun k => (keep k).isNone).length := by
  induction endpoints generalizing position spare with
  | nil => cases full
  | cons value rest ih =>
    unfold Members.allot at full
    rw [List.length_cons, List.range'_succ]
    cases stays : keep position with
    | some i =>
      simp only [stays, Option.map_eq_none_iff] at full
      rw [List.filter_cons_of_neg (by simp [stays])]
      exact ih full
    | none =>
      rw [List.filter_cons_of_pos (by simp [stays]), List.length_cons]
      cases spare with
      | nil => simp
      | cons vacant spare =>
        simp only [stays, Option.map_eq_none_iff] at full
        have less := ih full
        simp only [List.length_cons]
        omega

/-- The endpoints that members stay for, by the positions of the members. -/
theorem stays_nodup (sized : Sized members) (endpoints : List (Endpoint I A)) :
    ((List.finRange n).filterMap (members.stays endpoints)).Nodup :=
  (List.nodup_finRange n).filterMap fun _ _ _ stays stays' =>
    sized.stays_inj (Option.mem_def.mp stays) (Option.mem_def.mp stays')

theorem stays_lt (stays : members.stays endpoints i = some position) :
    position < endpoints.length := by
  rcases stays_some stays with ⟨_, _, -, -, found, -⟩
  exact (List.getElem?_eq_some_iff.mp found).1

/-- How many members stay. -/
def Members.retained (members : Members I A n) (endpoints : List (Endpoint I A)) : Nat :=
  tally (fun _ => True) (members.stays endpoints)

theorem retained_add (sized : Sized members) {scan : Scan n}
    (found : Found setup members endpoints N (List.finRange n) scan) :
    members.retained endpoints +
      ((List.range endpoints.length).filter fun k => (scan.keep k).isNone).length =
      endpoints.length := by
  have kept : ((List.range endpoints.length).filter fun k => !(scan.keep k).isNone).Perm
        ((List.finRange n).filterMap (members.stays endpoints)) := by
    rw [List.perm_ext_iff_of_nodup (List.nodup_range.filter _) (stays_nodup sized endpoints)]
    intro k
    rw [List.mem_filter, List.mem_range, List.mem_filterMap]
    constructor
    · rintro ⟨-, holds⟩
      rw [Option.not_isNone, Option.isSome_iff_exists] at holds
      rcases holds with ⟨i, holds⟩
      exact ⟨i, (found.keep k i).mp holds⟩
    · rintro ⟨i, mem, stays⟩
      have holds := (found.keep k i).mpr ⟨mem, stays⟩
      exact ⟨stays_lt stays, by simp [holds]⟩
  have split := List.length_eq_length_filter_add (fun k => (scan.keep k).isNone)
    (l := List.range endpoints.length)
  rw [List.length_range, kept.length_eq, length_filterMap] at split
  rw [Members.retained]
  omega

theorem retained_le (sized : Sized members) (endpoints : List (Endpoint I A)) :
    members.retained endpoints ≤ members.desired := by
  rw [sized.count]
  apply tally_mono
  intro i position stays _
  rcases stays_some stays with ⟨record, -, resides, desired, -, -⟩
  exact ⟨record, resides, desired⟩

/-- The generations of a position are spent. -/
def Members.Spent (setup : Setup O n) (members : Members I A n) (i : Fin n) : Prop :=
  setup.memberLast ≤ (members.records.slots i).generation

/-- A position that nobody stays at is spare, unless it is spent or its member is owned. -/
theorem spareAt_none (left : ¬members.Spent setup i) (stays : members.stays endpoints i = none)
    (held : members.spareAt setup endpoints i = none) : setup.authoritative = false ∧
      ∃ record, (members.records.slots i).resident = some record ∧ record.health.owners ≠ 0 := by
  rw [Members.Spent] at left
  rw [Members.spareAt, if_pos stays] at held
  unfold Members.vacancy at held
  cases resides : (members.records.slots i).resident with
  | none =>
    simp only [resides] at held
    rw [if_pos (by omega)] at held
    cases held
  | some record =>
    simp only [resides] at held
    split at held
    · rename_i owned
      simp only [Bool.and_eq_true, Bool.not_eq_true'] at owned
      simpa using owned
    · rw [if_pos (by omega)] at held
      cases held

omit [DecidableEq I] in
theorem held_le (sound : Sound setup.authoritative members claims) :
    (Finset.univ.filter fun i => setup.authoritative = false ∧ ∃ record,
      (members.records.slots i).resident = some record ∧ record.health.owners ≠ 0).card ≤
        if setup.authoritative then 0 else m := by
  cases authority : setup.authoritative with
  | true => simp
  | false =>
    simp only [true_and, Bool.false_eq_true, if_false]
    rw [← Finset.card_image_of_injective _ (Option.some_injective (Fin n))]
    -- Each of them is named by a dial.
    let named : Fin m → Option (Fin n) := fun d =>
      (claims d).map fun claim => claim.target.member.slot
    have few : (Finset.univ.image named).card ≤ m := by
      have le : (Finset.univ.image named).card ≤ (Finset.univ : Finset (Fin m)).card :=
        Finset.card_image_le
      simpa using le
    refine (Finset.card_le_card ?_).trans few
    intro slot mem
    rcases Finset.mem_image.mp mem with ⟨i, held, rfl⟩
    rcases (Finset.mem_filter.mp held).2 with ⟨record, resides, owned⟩
    have owners := ((sound.good i).rests record resides).owners authority
    rcases exists_of_tally_pos (Nat.pos_of_ne_zero (owners ▸ owned)) with ⟨d, claim, has, names⟩
    exact Finset.mem_image.mpr ⟨d, Finset.mem_univ d, by simp [named, has, names]⟩

theorem capacity_spent (sized : Sized members) (sound : Sound setup.authoritative members claims)
    (room : n = N + if setup.authoritative then 0 else m) (bounded : endpoints.length ≤ N)
    (full : Members.allot (members.scan setup endpoints N).keep 0
      (members.scan setup endpoints N).spare endpoints = none) : ∃ i, members.Spent setup i := by
  by_contra none
  rw [not_exists] at none
  have found := scan_found sized setup endpoints N
  have less := allot_none full
  rw [← List.range_eq_range', found.spare, List.length_take, length_filterMap] at less
  have total := retained_add sized found
  have held := held_le sound
  -- Every position stays, is spare or is held.
  have every : n ≤ members.retained endpoints +
      tally (fun _ => True) (members.spareAt setup endpoints) +
      (Finset.univ.filter fun i => setup.authoritative = false ∧ ∃ record,
        (members.records.slots i).resident = some record ∧ record.health.owners ≠ 0).card := by
    let staying := Finset.univ.filter fun i => ∃ k ∈ members.stays endpoints i, True
    let spare := Finset.univ.filter fun i =>
      ∃ vacant ∈ members.spareAt setup endpoints i, True
    let owned := Finset.univ.filter fun i => setup.authoritative = false ∧ ∃ record,
      (members.records.slots i).resident = some record ∧ record.health.owners ≠ 0
    have cover : (Finset.univ : Finset (Fin n)) ⊆ (staying ∪ spare) ∪ owned := by
      intro i _
      simp only [staying, spare, owned, Finset.mem_union, Finset.mem_filter, Finset.mem_univ,
        true_and]
      cases stays : members.stays endpoints i with
      | some position => exact .inl (.inl ⟨position, rfl, trivial⟩)
      | none =>
        cases spare : members.spareAt setup endpoints i with
        | some vacant => exact .inl (.inr ⟨vacant, rfl, trivial⟩)
        | none => exact .inr (spareAt_none (none i) stays spare)
    have le := (Finset.card_le_card cover).trans (Finset.card_union_le ..)
    have le' := Finset.card_union_le staying spare
    rw [Finset.card_fin] at le
    show n ≤ staying.card + spare.card + owned.card
    omega
  omega

end Scan

end Dope.Manifold.Service
