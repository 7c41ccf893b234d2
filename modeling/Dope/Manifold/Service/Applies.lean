import Dope.Manifold.Service.Chooses

/-! # Members come and go

Demand changes no schedule. A snapshot keeps the members it names, puts new ones in
positions that nobody owns, and retires the rest.
-/

namespace Dope.Manifold.Service

open Dope.Round Dope.Run

variable {I A O : Type} {n m N : Nat} {authoritative : Bool} {key : Key n}
  {claims : Fin m → Option (Claim n)} {d : Fin m} {members members' : Members I A n}
  {record : Record I A} {i : Fin n} {setup : Setup O n}

/-! ## Demand -/

/-- A record changes its demand, and has one as before. -/
theorem demand_sound {demand : Health → Option Demand}
    (sound : Sound authoritative members claims) (found : members.records.get key = some record)
    (same : demand record.health = none ↔ record.health.demand = none) :
    Sound authoritative (members.edit key.slot fun h => { h with demand := demand h }) claims ∧
      AgedAll members (members.edit key.slot fun h => { h with demand := demand h }) := by
  rcases sound.resident found with ⟨whole, rests, probed, -⟩
  have moved := Elsewhere.edit key.slot members fun h => { h with demand := demand h }
  have slot : (members.edit key.slot fun h => { h with demand := demand h }).records.slots
      key.slot = ⟨key.generation,
        some (record.withHealth fun h => { h with demand := demand h })⟩ := by
    simp [Members.edit, whole]
  refine ⟨sound.becomes found moved slot Iff.rfl rfl (fun other _ => .refl other claims)
    (.refl _ claims) (rests.demanded rfl rfl rfl rfl ?_) ?_, aged_of_slots moved whole slot same.mpr⟩
  · exact fun retired => rests.demand (same.mp retired)
  · exact probed.congr (fun desired retired => desired (same.mpr retired)) rfl rfl

theorem isRetained_spec (sound : Sound authoritative members claims) (member : Key n)
    (retained : I → Bool) :
    Sound authoritative (members.isRetained member retained).2 claims ∧
      AgedAll members (members.isRetained member retained).2 := by
  unfold Members.isRetained
  cases found : members.records.get member with
  | none => exact ⟨sound, .refl _⟩
  | some record =>
    by_cases stays : retained record.id
    · simp only [stays, Bool.not_true, Bool.false_eq_true, if_false]
      refine demand_sound sound found ?_
      rw [Option.map_eq_none_iff]
    · simp only [stays, Bool.not_false, if_true]
      exact ⟨sound, .refl _⟩

theorem setDemandOf_spec {state : Bool × Members I A n} (sound : Sound authoritative state.2 claims)
    (demand : I → Demand) (i : Fin n) :
    Sound authoritative (Members.setDemandOf demand state i).2 claims ∧
      AgedAll state.2 (Members.setDemandOf demand state i).2 := by
  unfold Members.setDemandOf
  cases resides : (state.2.records.slots i).resident with
  | none => exact ⟨sound, .refl _⟩
  | some record =>
    cases had : record.health.demand with
    | none =>
      simp only [had]
      exact ⟨sound, .refl _⟩
    | some previous =>
      simp only [had]
      exact demand_sound sound (Table.get_key resides) (by simp [had])

theorem setDemand_spec (sound : Sound authoritative members claims) (demand : I → Demand) :
    Sound authoritative (members.setDemand demand).2 claims ∧
      AgedAll members (members.setDemand demand).2 := by
  -- Over the positions that are left.
  have run : ∀ (left : List (Fin n)) (state : Bool × Members I A n),
      Sound authoritative state.2 claims →
      Sound authoritative (left.foldl (Members.setDemandOf demand) state).2 claims ∧
        AgedAll state.2 (left.foldl (Members.setDemandOf demand) state).2 := by
    intro left
    induction left with
    | nil => exact fun state sound => ⟨sound, .refl _⟩
    | cons i left ih =>
      intro state sound
      rcases setDemandOf_spec sound demand i with ⟨next, aged⟩
      rcases ih _ next with ⟨last, older⟩
      exact ⟨last, aged.trans older⟩
  exact run _ _ sound

/-! ## Entries of a snapshot -/

def Vacant.slot : Vacant n → Fin n
  | .free i | .reuse i => i

/-- A position that nobody owns. -/
def Vacant.Fits (authoritative : Bool) (members : Members I A n) : Vacant n → Prop
  | .free i => (members.records.slots i).resident = none
  | .reuse i => ∃ record, (members.records.slots i).resident = some record ∧
      (authoritative = true ∨ record.health.owners = 0)

def Entry.slot : Entry I A n → Fin n
  | .keep i _ => i
  | .new vacant _ => vacant.slot

def Entry.vacant : Entry I A n → Option (Fin n)
  | .keep _ _ => none
  | .new vacant _ => some vacant.slot

def Entry.Fits (authoritative : Bool) (members : Members I A n) : Entry I A n → Prop
  | .keep i _ => ∃ record, (members.records.slots i).resident = some record
  | .new vacant _ => vacant.Fits authoritative members

section

variable (sound : Sound authoritative members claims)

include sound

theorem new_sound {generation : Nat} {id : I} {addr : A} (moved : Elsewhere i members members')
    (slot : members'.records.slots i = ⟨generation, some (.new id addr)⟩)
    (retries : members'.retries i = none)
    (older : (members.records.slots i).generation ≤ generation)
    (fresh : ∀ d claim, claims d = some claim → claim.target.member ≠ ⟨i, generation⟩)
    (unowned : authoritative = false → ∀ d claim, claims d = some claim → claim.target.member.slot
      ≠ i) : Sound authoritative members' claims := by
  refine sound.edit moved (fun other _ => .refl other claims) ?_ ?_
  · rw [slot, retries]
    refine ⟨?_, by simp, ?_, ?_⟩
    · intro e claim held here
      exact ((sound.good i).stale e claim held here).trans older
    · intro other same
      cases same
      exact .new fresh
    · intro other same
      cases same
      exact .of_idle nofun
  · exact fun preserve e claim held here => absurd here (unowned preserve e claim held)

theorem insert_spec (vacant : Vacant n) (fits : vacant.Fits authoritative members) (id : I)
    (addr : A) :
    Sound authoritative (members.insert vacant (.new id addr)).2 claims ∧
      AgedAll members (members.insert vacant (.new id addr)).2 ∧
      Elsewhere vacant.slot members (members.insert vacant (.new id addr)).2 ∧
      ∃ record, ((members.insert vacant (.new id addr)).2.records.slots vacant.slot).resident =
        some record := by
  cases vacant with
  | free i =>
    have good := sound.good i
    have empty : (members.records.slots i).resident = none := fits
    rcases good.vacant empty with ⟨retries, fresh⟩
    have slot : ((members.records.insert i (.new id addr)).link i).slots i =
        ⟨(members.records.slots i).generation, some (.new id addr)⟩ := by
      simp [Table.insert]
    have resides : ((members.records.insert i (Record.new id addr)).slots i).resident =
        some (.new id addr) := by
      simp [Table.insert]
    have moved : Elsewhere i members
        { members with records := (members.records.insert i (.new id addr)).link i } := by
      refine .records ?_ ?_
      · exact fun j apart => Table.slots_place_of_ne _ apart
      · intro j apart
        rw [Table.mem_link resides]
        simp [Table.insert, apart]
    refine ⟨new_sound sound moved slot retries (Nat.le_refl _) fresh ?_, moved.aged ?_, moved,
      _, congrArg Slot.resident slot⟩
    · -- Without authority the claimed members are there.
      intro preserve e claim held here
      have lives := sound.live preserve e claim held
      simp [Table.get, here, empty] at lives
    · rw [slot]
      exact .inr ⟨rfl, by simp [empty]⟩
  | reuse i =>
    rcases fits with ⟨record, resides, spare⟩
    have found := Table.get_key resides
    rcases sound.resident found with ⟨whole, rests, -, stale⟩
    have retired : (members.retire (members.records.key i)).retries i = none ∧
        (members.retire (members.records.key i)).records = members.records ∧
        ∀ j, j ≠ i → (members.retire (members.records.key i)).retries j = members.retries j := by
      unfold Members.retire
      cases retry : members.retries i with
      | none => simp [Table.key, retry]
      | some entry =>
        have same : entry.1 = (members.records.key i).generation :=
          (rests.waits entry.1 entry.2 retry).1
        have here : (members.records.key i).slot = i := rfl
        simp only [here, retry, if_pos same]
        exact ⟨Function.update_self .., trivial, fun j apart => Function.update_of_ne apart ..⟩
    rcases retired with ⟨retries, records, others⟩
    let members₁ := members.retire (members.records.key i)
    have resides' : ((members₁.records.replace i (Record.new id addr)).slots i).resident =
        some (.new id addr) := by
      simp [Table.replace]
    have ring : ∀ j, j ∈ (members.insert (.reuse i) (.new id addr)).2.records.ring ↔
        j ∈ members.records.ring ∨ j = i := by
      intro j
      simp only [Members.insert]
      split
      · rw [Table.mem_requeue resides']
        simp [Table.replace, members₁, records]
      · rw [Table.mem_link resides']
        simp [Table.replace, members₁, records]
    have slots : (members.insert (.reuse i) (.new id addr)).2.records.slots =
        (members.records.replace i (.new id addr)).slots := by
      simp only [Members.insert]
      split
      · rw [Table.requeue_slots, records]
      · rw [Table.link_slots, records]
    have slot : (members.insert (.reuse i) (.new id addr)).2.records.slots i =
        ⟨(members.records.slots i).generation + 1, some (.new id addr)⟩ := by
      rw [slots]
      simp [Table.replace]
    have moved : Elsewhere i members (members.insert (.reuse i) (.new id addr)).2 := by
      intro j apart
      refine ⟨?_, ?_, others j apart⟩
      · rw [slots]
        exact Table.slots_place_of_ne _ apart
      · rw [ring j]
        simp [apart]
    refine ⟨new_sound sound moved slot retries (Nat.le_succ _) ?_ ?_,
      moved.aged ?_, moved, _, congrArg Slot.resident slot⟩
    · intro e claim held names
      have le := stale e claim held (by rw [names]; rfl)
      rw [names] at le
      exact Nat.not_succ_le_self _ le
    · intro preserve e claim held here
      have names := sound.named preserve held found here
      have positive := rests.owners_pos preserve held names
      rcases spare with authority | unowned
      · rw [authority] at preserve
        cases preserve
      · omega
    · rw [slot]
      exact .inl (Nat.lt_succ_self _)

/-- An entry is committed: a member that stays changes its address alone. -/
theorem commit_spec (entry : Entry I A n) (fits : entry.Fits authoritative members) :
    Sound authoritative (members.commit entry).2 claims ∧
      AgedAll members (members.commit entry).2 ∧
      Elsewhere entry.slot members (members.commit entry).2 ∧
      (∃ record, ((members.commit entry).2.records.slots entry.slot).resident = some record) ∧
      (entry.vacant = none → ∀ record, (members.records.slots entry.slot).resident = some record →
        ∃ record', ((members.commit entry).2.records.slots entry.slot).resident = some record' ∧
          record'.health = record.health) := by
  cases entry with
  | new vacant value =>
    rcases insert_spec sound vacant fits value.id value.addr with ⟨kept, aged, moved, resides⟩
    exact ⟨kept, aged, moved, resides, nofun⟩
  | keep i value =>
    rcases fits with ⟨record, resides⟩
    have found := Table.get_key resides
    rcases sound.resident found with ⟨whole, rests, probed, -⟩
    have slot : (members.commit (.keep i value)).2.records.slots i =
        ⟨(members.records.slots i).generation, some { record with addr := value.addr }⟩ := by
      simp only [Members.commit]
      split
      · simp [resides]
      · simp [resides]
    have edited : ((members.records.edit i fun record =>
        { record with addr := value.addr }).slots i).resident =
          some { record with addr := value.addr } := by
      simp [resides]
    have ring : ∀ j, j ∈ (members.commit (.keep i value)).2.records.ring ↔
        j ∈ members.records.ring := by
      intro j
      simp only [Members.commit]
      split
      · rename_i linked
        rw [Table.mem_requeue edited]
        constructor
        · rintro (mem | rfl)
          · exact mem
          · exact linked
        · exact Or.inl
      · exact Iff.rfl
    have moved : Elsewhere i members (members.commit (.keep i value)).2 := by
      intro j apart
      refine ⟨?_, ring j, rfl⟩
      simp only [Members.commit]
      split
      · simp [apart]
      · simp [apart]
    have kept : Sound authoritative (members.commit (.keep i value)).2 claims :=
      sound.becomes found moved slot (ring i) rfl (fun other _ => .refl other claims)
        (.refl _ claims) rests probed
    refine ⟨kept, aged_of_slots moved whole slot id, moved, ⟨_, congrArg Slot.resident slot⟩, ?_⟩
    intro _ record' resides'
    rw [show (members.records.slots i).resident = some record' from resides'] at resides
    cases resides
    exact ⟨_, congrArg Slot.resident slot, rfl⟩

theorem commit_fits {entry other : Entry I A n} (fits : entry.Fits authoritative members)
    (fits' : other.Fits authoritative members)
    (apart : ∀ i, entry.vacant = some i → other.vacant ≠ some i) :
    other.Fits authoritative (members.commit entry).2 := by
  rcases commit_spec sound entry fits with ⟨-, -, moved, resides, keeps⟩
  by_cases same : other.slot = entry.slot
  · cases other with
    | keep i value =>
      simp only [Entry.slot] at same
      subst same
      exact resides
    | new vacant value =>
      cases entry with
      | new vacant' value' => exact absurd (congrArg some same) (apart _ rfl)
      | keep j value' =>
        rcases fits with ⟨record, resides'⟩
        rcases keeps rfl record resides' with ⟨record', resides'', health⟩
        simp only [Entry.slot] at same resides''
        cases vacant with
        | free i =>
          cases same
          have empty : (members.records.slots i).resident = none := fits'
          have missing := empty.symm.trans resides'
          cases missing
        | reuse i =>
          cases same
          rcases fits' with ⟨found, there, spare⟩
          have same := there.symm.trans resides'
          cases same
          exact ⟨record', resides'', by rw [health]; exact spare⟩
  · have slots := (moved _ same).1
    cases other with
    | keep i value =>
      simp only [Entry.slot] at slots
      rcases fits' with ⟨record, there⟩
      exact ⟨record, by rw [slots]; exact there⟩
    | new vacant value =>
      cases vacant with
      | free i =>
        simp only [Entry.slot, Vacant.slot] at slots
        have empty : (members.records.slots i).resident = none := fits'
        simp only [Entry.Fits, Vacant.Fits, slots]
        exact empty
      | reuse i =>
        simp only [Entry.slot, Vacant.slot] at slots
        rcases fits' with ⟨record, there, spare⟩
        exact ⟨record, by rw [slots]; exact there, spare⟩

theorem commitAll_spec (entries : List (Entry I A n))
    (fits : ∀ entry ∈ entries, entry.Fits authoritative members)
    (nodup : (entries.filterMap Entry.vacant).Nodup) :
    Sound authoritative (Members.commitAll entries members).2 claims ∧
      AgedAll members (Members.commitAll entries members).2 := by
  induction entries generalizing members with
  | nil => exact ⟨sound, .refl _⟩
  | cons entry rest ih =>
    have fit := fits entry List.mem_cons_self
    rcases commit_spec sound entry fit with ⟨next, aged, -, -, -⟩
    have still : ∀ other ∈ rest, other.Fits authoritative (members.commit entry).2 := by
      intro other mem
      refine commit_fits sound fit (fits other (List.mem_cons_of_mem _ mem)) ?_
      intro i takes takes'
      rw [List.filterMap_cons_some takes] at nodup
      exact (List.nodup_cons.mp nodup).1 (List.mem_filterMap.mpr ⟨other, mem, takes'⟩)
    have distinct : (rest.filterMap Entry.vacant).Nodup := by
      cases takes : entry.vacant with
      | none => rwa [List.filterMap_cons_none takes] at nodup
      | some i =>
        rw [List.filterMap_cons_some takes] at nodup
        exact (List.nodup_cons.mp nodup).2
    rcases ih next still distinct with ⟨last, older⟩
    exact ⟨last, aged.trans older⟩

/-! ## The scan -/

end

section Scan

variable [DecidableEq I] {endpoints : List (Endpoint I A)}

omit [DecidableEq I] in
theorem vacancy_fits {vacant : Vacant n} (free : members.vacancy setup i = some vacant) :
    vacant.slot = i ∧ vacant.Fits setup.authoritative members := by
  unfold Members.vacancy at free
  cases resides : (members.records.slots i).resident with
  | none =>
    simp only [resides] at free
    split at free
    · cases free
      exact ⟨rfl, resides⟩
    · cases free
  | some record =>
    simp only [resides] at free
    split at free
    · cases free
    · rename_i spare
      split at free
      · cases free
        refine ⟨rfl, record, resides, ?_⟩
        cases authority : setup.authoritative with
        | true => exact .inl rfl
        | false =>
          right
          by_contra owned
          exact spare (by simp [authority, owned])
      · cases free

/-- What the scan has found in the positions it has seen. -/
structure Scanned (authoritative : Bool) (members : Members I A n) (seen : List (Fin n))
    (scan : Scan n) : Prop where
  keep : ∀ position i, scan.keep position = some i →
    ∃ record, (members.records.slots i).resident = some record
  spare : ∀ vacant ∈ scan.spare, vacant.Fits authoritative members ∧ vacant.slot ∈ seen
  nodup : (scan.spare.map Vacant.slot).Nodup

theorem scanOf_spec {seen : List (Fin n)} {scan : Scan n}
    (scanned : Scanned setup.authoritative members seen scan) (fresh : i ∉ seen) :
    Scanned setup.authoritative members (i :: seen)
      (members.scanOf setup endpoints N scan i) := by
  have later : ∀ vacant ∈ scan.spare,
      vacant.Fits setup.authoritative members ∧ vacant.slot ∈ i :: seen := by
    intro vacant mem
    exact ⟨(scanned.spare vacant mem).1, List.mem_cons_of_mem _ (scanned.spare vacant mem).2⟩
  unfold Members.scanOf
  split
  · rename_i position stays
    refine ⟨?_, later, scanned.nodup⟩
    intro other j kept
    dsimp only at kept
    by_cases same : other = position
    · rw [same, Function.update_self] at kept
      cases kept
      rcases Option.bind_eq_some_iff.mp stays with ⟨record, resides, -⟩
      exact ⟨record, resides⟩
    · rw [Function.update_of_ne same] at kept
      exact scanned.keep other j kept
  · split
    · exact ⟨scanned.keep, later, scanned.nodup⟩
    · rename_i vacant free
      rcases vacancy_fits free with ⟨here, fits⟩
      split
      · refine ⟨scanned.keep, ?_, ?_⟩
        · intro other mem
          rcases List.mem_append.mp mem with mem | mem
          · exact later other mem
          · rw [List.mem_singleton.mp mem]
            exact ⟨fits, by rw [here]; exact List.mem_cons_self⟩
        · rw [List.map_append]
          refine scanned.nodup.append (List.nodup_singleton _) ?_
          intro j mem mem'
          rw [List.map_singleton, List.mem_singleton, here] at mem'
          rcases List.mem_map.mp mem with ⟨other, held, rfl⟩
          have saw := (scanned.spare other held).2
          exact fresh (mem' ▸ saw)
      · exact ⟨scanned.keep, later, scanned.nodup⟩

theorem scan_spec (members : Members I A n) (setup : Setup O n) (endpoints : List (Endpoint I A))
    (N : Nat) :
    ∃ seen, Scanned setup.authoritative members seen (members.scan setup endpoints N) := by
  -- Over the positions that are left, none of them seen.
  have run : ∀ (left seen : List (Fin n)) (scan : Scan n), left.Nodup → (∀ i ∈ left, i ∉ seen) →
      Scanned setup.authoritative members seen scan →
      ∃ seen, Scanned setup.authoritative members seen
        (left.foldl (members.scanOf setup endpoints N) scan) := by
    intro left
    induction left with
    | nil => exact fun seen scan _ _ scanned => ⟨seen, scanned⟩
    | cons i left ih =>
      intro seen scan nodup fresh scanned
      rcases List.nodup_cons.mp nodup with ⟨out, nodup⟩
      refine ih (i :: seen) _ nodup ?_ (scanOf_spec scanned (fresh i List.mem_cons_self))
      intro j mem
      rw [List.mem_cons, not_or]
      exact ⟨fun same => out (same ▸ mem), fresh j (List.mem_cons_of_mem _ mem)⟩
  exact run _ [] _ (List.nodup_finRange n) (by simp) ⟨by simp, by simp, List.nodup_nil⟩

omit [DecidableEq I] in
/-- Endpoints get positions that fit, and no two new ones the same. -/
theorem allot_spec {keep : Nat → Option (Fin n)} {position : Nat} {spare : List (Vacant n)}
    {entries : List (Entry I A n)}
    (keeps : ∀ position i, keep position = some i →
      ∃ record, (members.records.slots i).resident = some record)
    (fits : ∀ vacant ∈ spare, vacant.Fits authoritative members)
    (run : Members.allot keep position spare endpoints = some entries) :
    (∀ entry ∈ entries, entry.Fits authoritative members) ∧
      (entries.filterMap Entry.vacant).Sublist (spare.map Vacant.slot) := by
  induction endpoints generalizing position spare entries with
  | nil =>
    cases run
    exact ⟨by simp, by simp⟩
  | cons value rest ih =>
    unfold Members.allot at run
    cases stays : keep position with
    | some i =>
      simp only [stays, Option.map_eq_some_iff] at run
      rcases run with ⟨entries', run, rfl⟩
      rcases ih fits run with ⟨fit, sub⟩
      have kept : (Entry.keep i value).vacant = none := rfl
      refine ⟨?_, by rw [List.filterMap_cons_none kept]; exact sub⟩
      intro entry mem
      rcases List.mem_cons.mp mem with rfl | mem
      · exact keeps position i stays
      · exact fit entry mem
    | none =>
      cases spare with
      | nil => simp [stays] at run
      | cons vacant spare =>
        simp only [stays, Option.map_eq_some_iff] at run
        rcases run with ⟨entries', run, rfl⟩
        rcases ih (fun other mem => fits other (List.mem_cons_of_mem _ mem)) run with
          ⟨fit, sub⟩
        refine ⟨?_, by simpa [Entry.vacant] using sub⟩
        intro entry mem
        rcases List.mem_cons.mp mem with rfl | mem
        · exact fits vacant List.mem_cons_self
        · exact fit entry mem

end Scan

/-! ## Retirement -/

/-- A desired member that is not current leaves, or rests with its owners. -/
theorem pruneOf_spec (sound : Sound setup.authoritative members claims) (current : List (Key n))
    (i : Fin n) :
    ∃ members', Members.pruneOf setup current members i = .ok members' ∧
      Sound setup.authoritative members' claims ∧ AgedAll members members' := by
  unfold Members.pruneOf
  cases resides : (members.records.slots i).resident with
  | none => exact ⟨members, rfl, sound, .refl _⟩
  | some record =>
    have found := Table.get_key resides
    rcases sound.resident found with ⟨whole, rests, -, -⟩
    by_cases goes : record.isDesired ∧ members.records.key i ∉ current
    · simp only [if_pos goes]
      rcases remove_spec whole rests rfl with
        ⟨members', record', run, moved, slot, health, unparked, out, retries⟩
      have run : members.remove i record = .ok members' := run
      simp only [run, ok_bind]
      by_cases owned : setup.authoritative = false ∧ record.health.owners ≠ 0
      · rw [if_pos (by simp [owned])]
        have slot' : (members'.edit i fun h => { h with demand := none }).records.slots i =
            ⟨(members.records.slots i).generation,
              some (record'.withHealth fun h => { h with demand := none })⟩ := by
          have slot : members'.records.slots i = _ := slot
          simp [Members.edit, slot, Table.key]
        have moved' : Elsewhere i members (members'.edit i fun h => { h with demand := none }) :=
          moved.trans (.edit i members' _)
        have idles : Rests setup.authoritative (members.records.key i) record'.health False none
            claims :=
          rests.idle unparked (by rw [health]) (by rw [health]) (by rw [health])
        refine ⟨_, rfl, sound.becomes found moved' slot' ?_ retries
          (fun other _ => .refl other claims) (.refl _ claims)
          (idles.demanded rfl rfl rfl rfl ?_) ?_, aged_of_slots moved' whole slot' ?_⟩
        · exact iff_of_false out id
        · intro _
          rw [health]
          exact owned
        · exact fun desired => absurd rfl desired
        · exact fun _ => rfl
      · rw [if_neg (by simpa using owned)]
        refine ⟨_, rfl, discard_sound sound found ?_ (fun _ _ held => held)
          (fun other _ => .refl other claims) moved slot retries, ?_⟩
        · intro preserve e claim held names
          have positive := rests.owners_pos preserve held names
          exact owned ⟨preserve, positive.ne'⟩
        · refine (moved.trans (.discard _ _)).aged ?_
          rw [Table.slots_discard_self, slot, whole]
          exact .inl (Nat.lt_succ_self _)
    · simp only [if_neg goes]
      exact ⟨members, rfl, sound, .refl _⟩

theorem prune_spec (sound : Sound setup.authoritative members claims) (current : List (Key n)) :
    ∃ members', members.prune setup current = .ok members' ∧
      Sound setup.authoritative members' claims ∧ AgedAll members members' := by
  unfold Members.prune
  generalize List.finRange n = left
  induction left generalizing members with
  | nil => exact ⟨members, rfl, sound, .refl _⟩
  | cons i left ih =>
    rcases pruneOf_spec sound current i with ⟨members', run, next, aged⟩
    rcases ih next with ⟨last, rest, kept, older⟩
    refine ⟨last, ?_, kept, aged.trans older⟩
    rw [List.foldlM_cons, run]
    exact rest

theorem tryApply_spec [DecidableEq I] (sound : Sound setup.authoritative members claims)
    (snapshot : Snapshot I A N) :
    ∃ result members', members.tryApply setup snapshot = .ok (result, members') ∧
      Sound setup.authoritative members' claims ∧ AgedAll members members' := by
  unfold Members.tryApply
  by_cases stale : snapshot.revision ≤ members.revision
  · rw [if_pos stale]
    exact ⟨_, members, rfl, sound, .refl _⟩
  · rw [if_neg stale]
    cases Members.duplicate [] 0 snapshot.endpoints with
    | some found => exact ⟨_, members, rfl, sound, .refl _⟩
    | none =>
      rcases scan_spec members setup snapshot.endpoints N with ⟨seen, scanned⟩
      cases allotted : Members.allot (members.scan setup snapshot.endpoints N).keep 0
          (members.scan setup snapshot.endpoints N).spare snapshot.endpoints with
      | none =>
        simp only [allotted]
        exact ⟨_, members, rfl, sound, .refl _⟩
      | some entries =>
        rcases allot_spec scanned.keep (fun vacant mem => (scanned.spare vacant mem).1)
          allotted with ⟨fits, sub⟩
        rcases commitAll_spec sound entries fits (scanned.nodup.sublist sub) with
          ⟨committed, aged⟩
        rcases prune_spec committed (Members.commitAll entries members).1 with
          ⟨members', run, kept, older⟩
        simp only [allotted, run, ok_bind]
        refine ⟨_, _, rfl, ?_, aged.trans older⟩
        exact ⟨kept.good, kept.live⟩

end Dope.Manifold.Service
