import Dope.Manifold.Service.Scans
import Dope.Manifold.Service.Tending

/-! # Reconciliation

A snapshot that is applied leaves its endpoints as the desired members, in its order;
one that is refused changes nothing.
-/

namespace Dope.Round.Table

variable {n : Nat} {R : Type} {table : Table n R} {i : Fin n} {r : R}

theorem ring_requeue (resides : (table.slots i).resident = some r) :
    (table.requeue i).ring = table.ring.erase i ++ [i] := by
  have out : i ∉ table.ring.erase i := fun mem => (table.nodup.mem_erase_iff.mp mem).1 rfl
  have live : ((table.unlink i).slots i).resident.isSome = true := by simp [resides]
  simp only [requeue, link, if_pos live]
  exact if_neg out

theorem ring_link (resides : (table.slots i).resident = some r) (out : i ∉ table.ring) :
    (table.link i).ring = table.ring ++ [i] := by
  have live : (table.slots i).resident.isSome = true := by simp [resides]
  simp only [link, if_pos live]
  exact if_neg out

theorem erase_of_vacant (vacant : (table.slots i).resident = none) : i ∉ table.ring := by
  intro mem
  have live := table.live i mem
  rw [vacant] at live
  cases live

end Dope.Round.Table

namespace Dope.Manifold.Service

open Dope.Round Dope.Run Dope.Tally

variable {I A O P X E : Type} {n m N : Nat} {setup : Setup O n} {members members' : Members I A n}
  {claims : Fin m → Option (Claim n)}

/-! ## Commits -/

def Entry.value : Entry I A n → Endpoint I A
  | .keep _ value | .new _ value => value

/-- An entry ends in the ring: a member that stays if it was there, a new one always. -/
def Entry.comes (members : Members I A n) : Entry I A n → Bool
  | .keep i _ => i ∈ members.records.ring
  | .new _ _ => true

/-- What a committed entry leaves at its position. -/
def Entry.Placed (members members' : Members I A n) : Entry I A n → Prop
  | .keep i value => (members'.retries i = members.retries i) ∧
      ∀ record, (members.records.slots i).resident = some record → members'.records.slots i =
        ⟨(members.records.slots i).generation, some { record with addr := value.addr }⟩
  | .new vacant value =>
      (members'.records.slots vacant.slot).resident = some (.new value.id value.addr) ∧
        ∀ record, (members.records.slots vacant.slot).resident = some record →
          (members.records.slots vacant.slot).generation <
            (members'.records.slots vacant.slot).generation

/-- What one commit does. -/
structure Commits (members members' : Members I A n) (entry : Entry I A n) : Prop where
  placed : entry.Placed members members'
  elsewhere : Elsewhere entry.slot members members'
  ring : members'.records.ring =
    members.records.ring.erase entry.slot ++ if entry.comes members then [entry.slot] else []

theorem retire_records (members : Members I A n) (key : Key n) :
    (members.retire key).records = members.records ∧
      ∀ j, j ≠ key.slot → (members.retire key).retries j = members.retries j := by
  unfold Members.retire
  split
  · split
    · exact ⟨rfl, fun j apart => Function.update_of_ne apart ..⟩
    · exact ⟨rfl, fun _ _ => rfl⟩
  · exact ⟨rfl, fun _ _ => rfl⟩

variable {authoritative : Bool}

theorem insert_commits (vacant : Vacant n) (value : Endpoint I A)
    (fits : vacant.Fits authoritative members) :
    Commits members (members.insert vacant (.new value.id value.addr)).2 (.new vacant value) ∧
      (members.insert vacant (.new value.id value.addr)).1 =
        (members.insert vacant (.new value.id value.addr)).2.records.key vacant.slot := by
  cases vacant with
  | free i =>
    have empty : (members.records.slots i).resident = none := fits
    have out := Table.erase_of_vacant empty
    have resides : ((members.records.insert i (Record.new value.id value.addr)).slots i).resident =
        some (.new value.id value.addr) := by
      simp [Table.insert]
    refine ⟨⟨?_, ?_, ?_⟩, rfl⟩
    · refine ⟨by simpa [Members.insert, Vacant.slot] using resides, ?_⟩
      intro record here
      have here : (members.records.slots i).resident = some record := here
      rw [empty] at here
      cases here
    · refine .records ?_ ?_
      · exact fun j apart => Table.slots_place_of_ne _ apart
      · intro j apart
        rw [Table.mem_link resides]
        have apart : j ≠ i := apart
        simp [Table.insert, apart]
    · show ((members.records.insert i (Record.new value.id value.addr)).link i).ring = _
      rw [Table.ring_link resides (by simpa [Table.insert] using out)]
      simp [Table.insert, Entry.slot, Vacant.slot, List.erase_of_not_mem out, Entry.comes]
  | reuse i =>
    rcases retire_records members (members.records.key i) with ⟨records, retries⟩
    have resides : (((members.retire (members.records.key i)).records.replace i
        (Record.new value.id value.addr)).slots i).resident =
          some (.new value.id value.addr) := by
      simp [Table.replace]
    have ring : (members.insert (.reuse i) (.new value.id value.addr)).2.records.ring =
        members.records.ring.erase i ++ [i] := by
      simp only [Members.insert]
      split
      · rw [Table.ring_requeue resides]
        simp [Table.replace, records]
      · rename_i out
        rw [Table.ring_link resides out]
        have out : i ∉ members.records.ring := by simpa [Table.replace, records] using out
        simp [Table.replace, records, List.erase_of_not_mem out]
    have slots : (members.insert (.reuse i) (.new value.id value.addr)).2.records.slots =
        ((members.retire (members.records.key i)).records.replace i
          (Record.new value.id value.addr)).slots := by
      simp only [Members.insert]
      split
      · rw [Table.requeue_slots]
      · rw [Table.link_slots]
    refine ⟨⟨?_, ?_, ?_⟩, ?_⟩
    · refine ⟨?_, ?_⟩
      · show ((members.insert (.reuse i) _).2.records.slots i).resident = _
        rw [slots, resides]
      · intro record _
        show _ < ((members.insert (.reuse i) _).2.records.slots i).generation
        rw [slots, Table.replace, Table.slots_place_self, records]
        exact Nat.lt_succ_self _
    · intro j apart
      have apart : j ≠ i := apart
      refine ⟨?_, ?_, retries j apart⟩
      · rw [slots, Table.replace, Table.slots_place_of_ne _ apart, records]
      · show j ∈ (members.insert (.reuse i) _).2.records.ring ↔ _
        rw [ring, List.mem_append, List.mem_singleton,
          members.records.nodup.mem_erase_iff]
        simp [apart]
    · exact ring
    · exact congrArg (fun slots : Fin n → Slot (Record I A) =>
        (⟨i, (slots i).generation⟩ : Key n)) slots.symm

theorem commit_commits (entry : Entry I A n) (fits : entry.Fits authoritative members) :
    Commits members (members.commit entry).2 entry ∧
      (members.commit entry).1 = (members.commit entry).2.records.key entry.slot := by
  cases entry with
  | new vacant value => exact insert_commits vacant value fits
  | keep i value =>
    rcases fits with ⟨record, resides⟩
    have edited : ((members.records.edit i fun record =>
        { record with addr := value.addr }).slots i).resident =
          some { record with addr := value.addr } := by
      simp [resides]
    have slots : (members.commit (.keep i value)).2.records.slots =
        (members.records.edit i fun record => { record with addr := value.addr }).slots := by
      simp only [Members.commit]
      split
      · rw [Table.requeue_slots]
      · rfl
    have ring : (members.commit (.keep i value)).2.records.ring =
        members.records.ring.erase i ++ if i ∈ members.records.ring then [i] else [] := by
      simp only [Members.commit]
      by_cases linked : i ∈ members.records.ring
      · have linked' : i ∈ (members.records.edit i fun record =>
            { record with addr := value.addr }).ring := linked
        rw [if_pos linked, if_pos linked', Table.ring_requeue edited, Table.edit_ring]
      · have unlinked : ¬i ∈ (members.records.edit i fun record =>
            { record with addr := value.addr }).ring := linked
        rw [if_neg linked, if_neg unlinked, Table.edit_ring, List.erase_of_not_mem linked,
          List.append_nil]
    refine ⟨⟨⟨rfl, ?_⟩, ?_, ?_⟩, ?_⟩
    · intro other resides'
      rw [slots, Table.slots_edit_self, resides']
      rfl
    · intro j apart
      have apart : j ≠ i := apart
      refine ⟨?_, ?_, rfl⟩
      · rw [slots, Table.slots_edit_of_ne _ apart]
      · rw [ring, List.mem_append, members.records.nodup.mem_erase_iff]
        by_cases linked : i ∈ members.records.ring
        · simp [linked, apart]
        · simp [linked, apart]
    · rw [ring]
      simp [Entry.comes, Entry.slot]
    · exact congrArg (fun slots : Fin n → Slot (Record I A) =>
        (⟨i, (slots i).generation⟩ : Key n)) slots.symm

variable {entry : Entry I A n} {i : Fin n}

/-- Whatever is committed at one position leaves the others as they were. -/
theorem Commits.other (h : Commits members members' entry) (apart : i ≠ entry.slot) :
    members'.records.slots i = members.records.slots i ∧ members'.retries i = members.retries i ∧
      (i ∈ members'.records.ring ↔ i ∈ members.records.ring) :=
  ⟨(h.elsewhere i apart).1, (h.elsewhere i apart).2.2, (h.elsewhere i apart).2.1⟩

/-- An entry that was placed stays placed while its position is left alone. -/
theorem Entry.Placed.congr {members'' : Members I A n} (h : entry.Placed members members')
    (slots : members''.records.slots entry.slot = members'.records.slots entry.slot)
    (retries : members''.retries entry.slot = members'.retries entry.slot) :
    entry.Placed members members'' := by
  cases entry with
  | keep i value => exact ⟨retries.trans h.1, fun record resides => slots.trans (h.2 record resides)⟩
  | new vacant value =>
    refine ⟨(congrArg Slot.resident slots).trans h.1, ?_⟩
    intro record resides
    have slots : members''.records.slots vacant.slot = members'.records.slots vacant.slot := slots
    rw [slots]
    exact h.2 record resides

/-- Where an entry is placed depends on its own position. -/
theorem Entry.Placed.before {members'' : Members I A n} (h : entry.Placed members members'')
    (slots : members.records.slots entry.slot = members'.records.slots entry.slot)
    (retries : members.retries entry.slot = members'.retries entry.slot) :
    entry.Placed members' members'' := by
  cases entry with
  | keep i value =>
    refine ⟨h.1.trans retries, ?_⟩
    intro record resides
    have slots : members.records.slots i = members'.records.slots i := slots
    rw [← slots] at resides ⊢
    exact h.2 record resides
  | new vacant value =>
    refine ⟨h.1, ?_⟩
    intro record resides
    have slots : members.records.slots vacant.slot = members'.records.slots vacant.slot := slots
    rw [← slots] at resides ⊢
    exact h.2 record resides

theorem Entry.Fits.congr (fits : entry.Fits authoritative members)
    (slots : members'.records.slots entry.slot = members.records.slots entry.slot) :
    entry.Fits authoritative members' := by
  cases entry with
  | keep i value =>
    rcases fits with ⟨record, resides⟩
    exact ⟨record, (congrArg Slot.resident slots).trans resides⟩
  | new vacant value =>
    cases vacant with
    | free i => exact (congrArg Slot.resident slots).trans fits
    | reuse i =>
      rcases fits with ⟨record, resides, spare⟩
      exact ⟨record, (congrArg Slot.resident slots).trans resides, spare⟩

/-- What all commits do, at positions that differ. -/
structure CommitsAll (members members' : Members I A n) (entries : List (Entry I A n)) : Prop where
  placed : ∀ entry ∈ entries, entry.Placed members members'
  elsewhere : ∀ i, i ∉ entries.map Entry.slot →
    members'.records.slots i = members.records.slots i ∧ members'.retries i = members.retries i
  ring : members'.records.ring =
    (members.records.ring.filter fun i => i ∉ entries.map Entry.slot) ++
      (entries.filter (Entry.comes members)).map Entry.slot

theorem commitAll_commits (entries : List (Entry I A n))
    (fits : ∀ entry ∈ entries, entry.Fits authoritative members)
    (nodup : (entries.map Entry.slot).Nodup) :
    CommitsAll members (Members.commitAll entries members).2 entries ∧
      (Members.commitAll entries members).1 =
        entries.map fun entry => (Members.commitAll entries members).2.records.key entry.slot := by
  induction entries generalizing members with
  | nil =>
    refine ⟨⟨by simp, fun _ _ => ⟨rfl, rfl⟩, ?_⟩, rfl⟩
    simp [Members.commitAll]
  | cons entry rest ih =>
    rw [List.map_cons, List.nodup_cons] at nodup
    rcases nodup with ⟨out, nodup⟩
    rcases commit_commits entry (fits entry List.mem_cons_self) with ⟨first, key⟩
    have apart : ∀ other ∈ rest, other.slot ≠ entry.slot := by
      intro other mem same
      exact out (same ▸ List.mem_map_of_mem mem)
    have still : ∀ other ∈ rest, other.Fits authoritative (members.commit entry).2 := by
      intro other mem
      exact (fits other (List.mem_cons_of_mem _ mem)).congr (first.other (apart other mem)).1
    rcases ih still nodup with ⟨all, keys⟩
    rcases all.elsewhere entry.slot out with ⟨slots, retries⟩
    refine ⟨⟨?_, ?_, ?_⟩, ?_⟩
    · intro other mem
      rcases List.mem_cons.mp mem with rfl | mem
      · exact first.placed.congr slots retries
      · rcases first.other (apart other mem) with ⟨same, same', -⟩
        exact (all.placed other mem).before same same'
    · intro i away
      rw [List.map_cons, List.mem_cons, not_or] at away
      rcases all.elsewhere i away.2 with ⟨slots', retries'⟩
      rcases first.other away.1 with ⟨same, same', -⟩
      exact ⟨slots'.trans same, retries'.trans same'⟩
    · show (Members.commitAll rest (members.commit entry).2).2.records.ring = _
      rw [all.ring, first.ring, List.filter_append, List.map_cons, List.filter_cons]
      have comes : rest.filter (Entry.comes (members.commit entry).2) =
          rest.filter (Entry.comes members) := by
        apply List.filter_congr
        intro other mem
        cases other with
        | keep i value =>
          have same : i ∈ (members.commit entry).2.records.ring ↔ i ∈ members.records.ring :=
            (first.other (apart _ mem)).2.2
          simpa [Entry.comes] using same
        | new vacant value => rfl
      have before : ((members.records.ring.erase entry.slot).filter
          fun i => i ∉ rest.map Entry.slot) =
            members.records.ring.filter fun i => i ∉ entry.slot :: rest.map Entry.slot := by
        rw [members.records.nodup.erase_eq_filter, List.filter_filter]
        apply List.filter_congr
        intro i _
        rw [Bool.eq_iff_iff]
        simp only [Bool.and_eq_true, decide_eq_true_eq, bne_iff_ne, List.mem_cons, not_or]
        exact And.comm
      rw [comes, before]
      by_cases came : entry.comes members = true
      · have stays : ([entry.slot].filter fun i => i ∉ rest.map Entry.slot) = [entry.slot] := by
          simpa using out
        rw [if_pos came, if_pos came, stays, List.map_cons, List.append_assoc,
          List.singleton_append]
      · rw [if_neg came, if_neg came, List.filter_nil, List.append_nil]
    · rw [List.map_cons]
      show (members.commit entry).1 :: (Members.commitAll rest (members.commit entry).2).1 = _
      rw [keys]
      refine congrArg₂ List.cons ?_ rfl
      rw [key]
      exact congrArg (fun slot : Slot (Record I A) => (⟨entry.slot, slot.generation⟩ : Key n))
        slots.symm

/-! ## Allotments -/

section Allot

variable [DecidableEq I] {endpoints : List (Endpoint I A)}

/-- The endpoint that an entry is for, counted from `position` on. -/
def Entry.Serves (keep : Nat → Option (Fin n)) (spare : List (Vacant n)) (position : Nat)
    (endpoints : List (Endpoint I A)) (entry : Entry I A n) : Prop :=
  ∃ k, endpoints[k]? = some entry.value ∧ match entry with
    | .keep i _ => keep (position + k) = some i
    | .new vacant _ => keep (position + k) = none ∧ vacant ∈ spare

omit [DecidableEq I] in
theorem allot_some {keep : Nat → Option (Fin n)} {position : Nat} {spare : List (Vacant n)}
    {entries : List (Entry I A n)} (single : ∀ p q i, keep p = some i → keep q = some i → p = q)
    (nodup : (spare.map Vacant.slot).Nodup)
    (free : ∀ p i, keep p = some i → ∀ vacant ∈ spare, vacant.slot ≠ i)
    (run : Members.allot keep position spare endpoints = some entries) :
    entries.map Entry.value = endpoints ∧ (entries.map Entry.slot).Nodup ∧
      ∀ entry ∈ entries, entry.Serves keep spare position endpoints := by
  induction endpoints generalizing position spare entries with
  | nil =>
    cases run
    exact ⟨rfl, List.nodup_nil, by simp⟩
  | cons value rest ih =>
    -- What serves the rest serves the whole, one place further on.
    have shift : ∀ {spare' : List (Vacant n)} {entry : Entry I A n},
        (∀ vacant ∈ spare', vacant ∈ spare) → entry.Serves keep spare' (position + 1) rest →
        entry.Serves keep spare position (value :: rest) := by
      intro spare' entry sub serves
      rcases serves with ⟨k, found, serves⟩
      refine ⟨k + 1, found, ?_⟩
      have same : position + (k + 1) = position + 1 + k := by omega
      cases entry with
      | keep i value' =>
        show keep (position + (k + 1)) = some i
        rw [same]
        exact serves
      | new vacant value' =>
        show keep (position + (k + 1)) = none ∧ vacant ∈ spare
        rw [same]
        exact ⟨serves.1, sub _ serves.2⟩
    unfold Members.allot at run
    cases stays : keep position with
    | some i =>
      simp only [stays, Option.map_eq_some_iff] at run
      rcases run with ⟨entries', run, rfl⟩
      rcases ih nodup free run with ⟨values, slots, serves⟩
      refine ⟨by simp [values, Entry.value], ?_, ?_⟩
      · rw [List.map_cons, List.nodup_cons]
        refine ⟨?_, slots⟩
        intro mem
        rcases List.mem_map.mp mem with ⟨other, mem, same⟩
        rcases serves other mem with ⟨k, -, serves⟩
        cases other with
        | keep j value' =>
          have same : j = i := same
          rw [same] at serves
          have equal := single _ _ _ serves stays
          omega
        | new vacant value' => exact free _ _ stays vacant serves.2 same
      · intro entry mem
        rcases List.mem_cons.mp mem with rfl | mem
        · exact ⟨0, rfl, stays⟩
        · exact shift (fun _ held => held) (serves entry mem)
    | none =>
      cases spare with
      | nil => simp [stays] at run
      | cons vacant spare =>
        simp only [stays, Option.map_eq_some_iff] at run
        rcases run with ⟨entries', run, rfl⟩
        rw [List.map_cons, List.nodup_cons] at nodup
        rcases ih nodup.2 (fun p i kept other mem =>
          free p i kept other (List.mem_cons_of_mem _ mem)) run with ⟨values, slots, serves⟩
        refine ⟨by simp [values, Entry.value], ?_, ?_⟩
        · rw [List.map_cons, List.nodup_cons]
          refine ⟨?_, slots⟩
          intro mem
          rcases List.mem_map.mp mem with ⟨other, mem, same⟩
          rcases serves other mem with ⟨k, -, serves⟩
          cases other with
          | keep j value' => exact free _ _ serves vacant List.mem_cons_self same.symm
          | new vacant' value' =>
            exact nodup.1 (List.mem_map.mpr ⟨vacant', serves.2, same⟩)
        · intro entry mem
          rcases List.mem_cons.mp mem with rfl | mem
          · exact ⟨0, rfl, stays, List.mem_cons_self⟩
          · exact shift (fun _ held => List.mem_cons_of_mem _ held) (serves entry mem)

end Allot

/-! ## Prunes -/

/-- A desired member that is not current. -/
def Members.Prunes (members : Members I A n) (current : List (Key n)) (i : Fin n) : Prop :=
  members.Desired i ∧ members.records.key i ∉ current

/-- A member without its demand. -/
def Record.retired (record record' : Record I A) : Prop :=
  record'.id = record.id ∧ record'.addr = record.addr ∧ record'.health.demand = none ∧
    record'.health.owners = record.health.owners ∧
    record'.health.failures = record.health.failures

/-- What becomes of a position that is pruned. -/
def Pruned (authoritative : Bool) (before after : Slot (Record I A)) : Prop :=
  ∀ record, before.resident = some record →
    if authoritative = false ∧ record.health.owners ≠ 0 then
      after.generation = before.generation ∧
        ∃ record', after.resident = some record' ∧ record.retired record'
    else after = ⟨before.generation + 1, none⟩

/-- What is removed from its queue keeps all but the idle state, and its place in the ring. -/
theorem remove_effect {record : Record I A}
    (resides : (members.records.slots i).resident = some record)
    (run : members.remove i record = .ok members') :
    members'.records.ring = members.records.ring.erase i ∧ Elsewhere i members members' ∧
      (members'.records.slots i).generation = (members.records.slots i).generation ∧
      ∃ record', (members'.records.slots i).resident = some record' ∧ record'.id = record.id ∧
        record'.addr = record.addr ∧ record'.health.owners = record.health.owners ∧
        record'.health.failures = record.health.failures := by
  unfold Members.remove at run
  by_cases linked : i ∈ members.records.ring
  · rw [if_pos linked] at run
    cases run
    exact ⟨rfl, .unlink i members, rfl, record, resides, rfl, rfl, rfl, rfl⟩
  · rw [if_neg linked] at run
    have ring := (List.erase_of_not_mem linked).symm
    cases idle : record.health.idle with
    | probing | exhausted =>
      rw [idle] at run
      cases run
      exact ⟨ring, .refl i members, rfl, record, resides, rfl, rfl, rfl, rfl⟩
    | backoff =>
      rw [idle] at run
      dsimp only [Members.unpark] at run
      split at run
      · cases run
      · split at run
        · cases run
          have moved : Elsewhere i members { members with
              retries := Function.update members.retries i none } := .retries
          refine ⟨ring, moved.trans (.edit i _ _), by simp [Table.key], ?_⟩
          exact ⟨record.withHealth fun h => { h with idle := .exhausted },
            by simp [Table.key, resides], rfl, rfl, rfl, rfl⟩
        · cases run

theorem pruneOf_effect {current : List (Key n)} (sound : Sound setup.authoritative members claims)
    (run : Members.pruneOf setup current members i = .ok members') :
    Elsewhere i members members' ∧
      ((members.Prunes current i ∧ members'.records.ring = members.records.ring.erase i ∧
        members'.retries i = none ∧
        Pruned setup.authoritative (members.records.slots i) (members'.records.slots i)) ∨
      ¬members.Prunes current i ∧ members' = members) := by
  unfold Members.pruneOf at run
  cases resides : (members.records.slots i).resident with
  | none =>
    simp only [resides] at run
    cases run
    refine ⟨.refl i members, .inr ⟨?_, rfl⟩⟩
    rintro ⟨⟨record, resides', -⟩, -⟩
    rw [resides] at resides'
    cases resides'
  | some record =>
    simp only [resides] at run
    by_cases goes : record.isDesired ∧ members.records.key i ∉ current
    · rw [if_pos goes] at run
      rcases bind_ok.mp run with ⟨removed, removes, finish⟩
      rcases remove_effect resides removes with
        ⟨ring, moved, generation, record', resides', id, addr, owners, failures⟩
      have waits : removed.retries i = none := by
        rcases sound.resident (Table.get_key resides) with ⟨whole, rests, -, -⟩
        rcases remove_spec whole rests rfl with ⟨removed', -, again, -, -, -, -, -, retries⟩
        have again : members.remove i record = .ok removed' := again
        rw [removes] at again
        cases again
        exact retries
      have prunes : members.Prunes current i := by
        refine ⟨⟨record, resides, ?_⟩, goes.2⟩
        have desired := goes.1
        rwa [Record.isDesired, Option.isSome_iff_ne_none] at desired
      by_cases owned : setup.authoritative = false ∧ record.health.owners ≠ 0
      · rw [if_pos (by simp [owned])] at finish
        cases finish
        refine ⟨moved.trans (.edit i removed _), .inl ⟨prunes, ring, waits, ?_⟩⟩
        intro other same
        rw [resides] at same
        cases same
        rw [if_pos owned]
        refine ⟨by simp [Members.edit, generation],
          record'.withHealth fun h => { h with demand := none }, ?_, id, addr, rfl, owners, failures⟩
        simp [Members.edit, resides']
      · rw [if_neg (by simpa using owned)] at finish
        cases finish
        refine ⟨moved.trans (.discard i removed), .inl ⟨prunes, ?_, waits, ?_⟩⟩
        · show removed.records.ring.erase i = _
          rw [ring]
          exact List.erase_of_not_mem fun mem =>
            (members.records.nodup.mem_erase_iff.mp mem).1 rfl
        · intro other same
          rw [resides] at same
          cases same
          rw [if_neg owned]
          show (removed.records.discard i).slots i = _
          rw [Table.slots_discard_self, generation]
    · rw [if_neg goes] at run
      cases run
      refine ⟨.refl i members, .inr ⟨?_, rfl⟩⟩
      rintro ⟨⟨record', resides', desired⟩, out⟩
      rw [resides] at resides'
      cases resides'
      exact goes ⟨by rwa [Record.isDesired, Option.isSome_iff_ne_none], out⟩

/-- What a prune of some positions does. -/
structure PrunesAll (authoritative : Bool) (current : List (Key n)) (left : List (Fin n))
    (members members' : Members I A n) : Prop where
  pruned : ∀ i, i ∈ left → members.Prunes current i → members'.retries i = none ∧
    Pruned authoritative (members.records.slots i) (members'.records.slots i)
  kept : ∀ i, ¬(i ∈ left ∧ members.Prunes current i) →
    members'.records.slots i = members.records.slots i ∧ members'.retries i = members.retries i
  order : members'.records.ring.Sublist members.records.ring
  ring : ∀ i, i ∈ members'.records.ring ↔
    i ∈ members.records.ring ∧ ¬(i ∈ left ∧ members.Prunes current i)

theorem foldlM_pruneOf {current : List (Key n)} {left : List (Fin n)} (nodup : left.Nodup)
    (sound : Sound setup.authoritative members claims)
    (run : left.foldlM (Members.pruneOf setup current) members = .ok members') :
    PrunesAll setup.authoritative current left members members' := by
  induction left generalizing members with
  | nil =>
    cases run
    exact ⟨by simp, fun _ _ => ⟨rfl, rfl⟩, .refl _, by simp⟩
  | cons i left ih =>
    rw [List.foldlM_cons] at run
    rcases bind_ok.mp run with ⟨next, first, rest⟩
    rw [List.nodup_cons] at nodup
    have still : Sound setup.authoritative next claims := by
      rcases pruneOf_spec sound current i with ⟨next', run', still, -⟩
      rw [first] at run'
      cases run'
      exact still
    have all := ih nodup.2 still rest
    rcases pruneOf_effect sound first with ⟨moved, here⟩
    -- Elsewhere the same members are desired.
    have same : ∀ j, j ≠ i → (next.Prunes current j ↔ members.Prunes current j) := by
      intro j apart
      rw [Members.Prunes, Members.Prunes, Members.Desired, Members.Desired, Table.key, Table.key,
        (moved j apart).1]
    have fixed : ¬(i ∈ left ∧ next.Prunes current i) := fun mem => nodup.1 mem.1
    rcases all.kept i fixed with ⟨slot, retry⟩
    refine ⟨?_, ?_, ?_, ?_⟩
    · intro j mem prunes
      rcases List.mem_cons.mp mem with rfl | mem
      · rcases here with ⟨-, -, waits, pruned⟩ | ⟨never, -⟩
        · rw [slot, retry]
          exact ⟨waits, pruned⟩
        · exact absurd prunes never
      · have apart : j ≠ i := fun equal => nodup.1 (equal ▸ mem)
        have pruned := all.pruned j mem ((same j apart).mpr prunes)
        rwa [(moved j apart).1] at pruned
    · intro j stays
      by_cases equal : j = i
      · subst equal
        rcases here with ⟨prunes, -, -, -⟩ | ⟨-, nothing⟩
        · exact absurd ⟨List.mem_cons_self, prunes⟩ stays
        · rw [slot, retry, nothing]
          exact ⟨rfl, rfl⟩
      · have later : ¬(j ∈ left ∧ next.Prunes current j) := by
          rintro ⟨mem, prunes⟩
          exact stays ⟨List.mem_cons_of_mem _ mem, (same j equal).mp prunes⟩
        rcases all.kept j later with ⟨slots, retries⟩
        exact ⟨slots.trans (moved j equal).1, retries.trans (moved j equal).2.2⟩
    · refine all.order.trans ?_
      rcases here with ⟨-, ring, -, -⟩ | ⟨-, nothing⟩
      · rw [ring]
        exact List.erase_sublist
      · rw [nothing]
    · intro j
      rw [all.ring j]
      by_cases equal : j = i
      · subst equal
        rcases here with ⟨prunes, ring, -, -⟩ | ⟨never, nothing⟩
        · have out : j ∉ next.records.ring := by
            rw [ring]
            exact fun mem => (members.records.nodup.mem_erase_iff.mp mem).1 rfl
          simp [out, prunes]
        · simp [nothing, never]
      · rw [same j equal, (moved j equal).2.1]
        simp [equal]

/-! ## Snapshots -/

section Apply

variable [DecidableEq I]

/-- What a snapshot that is applied leaves behind. -/
structure Applied (authoritative : Bool) (members members' : Members I A n)
    (snapshot : Snapshot I A N) : Prop where
  revision : members'.revision = snapshot.revision
  /-- The desired members are the endpoints, each once. -/
  exact_ : ∀ endpoint, endpoint ∈ snapshot.endpoints ↔ ∃ i record,
    (members'.records.slots i).resident = some record ∧ record.isDesired = true ∧
      record.id = endpoint.id ∧ record.addr = endpoint.addr
  distinct : ∀ i j record record', (members'.records.slots i).resident = some record →
    (members'.records.slots j).resident = some record' → record.isDesired = true →
    record'.isDesired = true → record.id = record'.id → i = j
  /-- A member that stays changes its address alone. -/
  kept : ∀ key record, members.records.get key = some record → record.isDesired = true →
    ∀ endpoint ∈ snapshot.endpoints, endpoint.id = record.id →
      members'.records.get key = some { record with addr := endpoint.addr } ∧
        members'.retries key.slot = members.retries key.slot ∧
        (key.slot ∈ members'.records.ring ↔ key.slot ∈ members.records.ring)
  /-- An endpoint without a member gets a new one, which is scheduled. -/
  fresh : ∀ endpoint ∈ snapshot.endpoints, (∀ i record,
      (members.records.slots i).resident = some record → record.isDesired = true →
      record.id ≠ endpoint.id) →
    ∃ i ∈ members'.records.ring,
      (members'.records.slots i).resident = some (.new endpoint.id endpoint.addr)
  /-- The scheduled members follow each other as in the snapshot. -/
  order : (members'.records.ring.filterMap fun i =>
      (members'.records.slots i).resident.map Record.id).Sublist
    (snapshot.endpoints.map Endpoint.id)
  /-- A member with owners is there still. -/
  owned : authoritative = false → ∀ key record, members.records.get key = some record →
    record.health.owners ≠ 0 → ∃ record', members'.records.get key = some record' ∧
      record'.id = record.id ∧ record'.health.owners = record.health.owners
  /-- A key names one member, and its failures are not forgotten. -/
  named : ∀ key record record', members.records.get key = some record →
    members'.records.get key = some record' →
    record'.id = record.id ∧ record'.health.failures = record.health.failures

/-- No two endpoints have one id, or the first that repeats one is known. -/
theorem duplicate_none {endpoints : List (Endpoint I A)} :
    ∀ {seen index}, Members.duplicate seen index endpoints = none →
      (seen.map Endpoint.id).Nodup → ((seen ++ endpoints).map Endpoint.id).Nodup := by
  induction endpoints with
  | nil =>
    intro seen index _ nodup
    simpa using nodup
  | cons item rest ih =>
    intro seen index none nodup
    unfold Members.duplicate at none
    split at none
    · cases none
    · rename_i missing
      have next := ih none ?_
      · simpa using next
      · rw [List.map_append, List.map_singleton]
        refine nodup.append (List.nodup_singleton _) ?_
        intro id mem mem'
        rw [List.mem_singleton] at mem'
        rcases List.mem_map.mp mem with ⟨other, mem, same⟩
        have apart := List.findIdx?_eq_none_iff.mp missing other mem
        simp [same, mem'] at apart

/-- The first pair of endpoints with one id. -/
def FirstPair (endpoints : List (Endpoint I A)) (first second : Nat) : Prop :=
  first < second ∧ (∃ item item', endpoints[first]? = some item ∧
    endpoints[second]? = some item' ∧ item.id = item'.id) ∧
  ((endpoints.take second).map Endpoint.id).Nodup

theorem duplicate_some {endpoints : List (Endpoint I A)} :
    ∀ {seen first second}, Members.duplicate seen seen.length endpoints = some (first, second) →
      (seen.map Endpoint.id).Nodup → FirstPair (seen ++ endpoints) first second := by
  induction endpoints with
  | nil =>
    intro seen first second found
    cases found
  | cons item rest ih =>
    intro seen first second found nodup
    unfold Members.duplicate at found
    split at found
    · rename_i k known
      cases found
      rcases List.findIdx?_eq_some_iff_getElem.mp known with ⟨short, same, -⟩
      refine ⟨short, ⟨seen[first], item, ?_, ?_, by simpa using same⟩, ?_⟩
      · rw [List.getElem?_append_left short, List.getElem?_eq_getElem short]
      · simp
      · simpa using nodup
    · rename_i missing
      have split : seen ++ item :: rest = (seen ++ [item]) ++ rest := by simp
      rw [split]
      refine ih (by simpa using found) ?_
      rw [List.map_append, List.map_singleton]
      refine nodup.append (List.nodup_singleton _) ?_
      intro id mem mem'
      rw [List.mem_singleton] at mem'
      rcases List.mem_map.mp mem with ⟨other, mem, same⟩
      have apart := List.findIdx?_eq_none_iff.mp missing other mem
      simp [same, mem'] at apart

/-- The entries of a snapshot, placed, and the others pruned. -/
structure Reconciles (setup : Setup O n) (members between members' : Members I A n)
    (snapshot : Snapshot I A N) (entries : List (Entry I A n)) : Prop where
  sized : Sized members
  ids : (snapshot.endpoints.map Endpoint.id).Nodup
  values : entries.map Entry.value = snapshot.endpoints
  slots : (entries.map Entry.slot).Nodup
  fits : ∀ entry ∈ entries, entry.Fits setup.authoritative members
  /-- An entry that keeps a member keeps the one that stays, and a new one is for an
  endpoint that nobody stays for. -/
  serves : ∀ entry ∈ entries, ∃ k, snapshot.endpoints[k]? = some entry.value ∧
    match entry with
    | .keep i _ => members.stays snapshot.endpoints i = some k
    | .new _ _ => ∀ i, members.stays snapshot.endpoints i ≠ some k
  commits : CommitsAll members between entries
  prunes : PrunesAll setup.authoritative (entries.map fun entry => between.records.key entry.slot)
    (List.finRange n) between members'

section Reconciles

variable {between : Members I A n} {snapshot : Snapshot I A N} {entries : List (Entry I A n)}

section

variable (h : Reconciles setup members between members' snapshot entries)

include h

theorem Reconciles.current (mem : entry ∈ entries) :
    members'.records.slots entry.slot = between.records.slots entry.slot ∧
      members'.retries entry.slot = between.retries entry.slot ∧
      (entry.slot ∈ members'.records.ring ↔ entry.slot ∈ between.records.ring) := by
  have stays : ¬(entry.slot ∈ List.finRange n ∧
      between.Prunes (entries.map fun entry => between.records.key entry.slot) entry.slot) := by
    rintro ⟨-, -, out⟩
    exact out (List.mem_map.mpr ⟨entry, mem, rfl⟩)
  rcases h.prunes.kept _ stays with ⟨slots, retries⟩
  refine ⟨slots, retries, ?_⟩
  rw [h.prunes.ring]
  exact and_iff_left stays

theorem Reconciles.placed (mem : entry ∈ entries) : entry.Placed members members' := by
  rcases h.current mem with ⟨slots, retries, -⟩
  exact (h.commits.placed entry mem).congr slots retries

/-- Any other position is as it was, or is pruned if its member is desired. -/
theorem Reconciles.other (away : i ∉ entries.map Entry.slot) :
    (members.Desired i ∧ i ∉ members'.records.ring ∧ members'.retries i = none ∧
        Pruned setup.authoritative (members.records.slots i) (members'.records.slots i)) ∨
      ¬members.Desired i ∧ members'.records.slots i = members.records.slots i ∧
        members'.retries i = members.retries i := by
  rcases h.commits.elsewhere i away with ⟨slots, retries⟩
  have out : between.records.key i ∉ entries.map fun entry => between.records.key entry.slot := by
    intro mem
    rcases List.mem_map.mp mem with ⟨entry, mem, same⟩
    have same : entry.slot = i := congrArg Key.slot same
    exact away (List.mem_map.mpr ⟨entry, mem, same⟩)
  have same : between.Desired i ↔ members.Desired i := by
    rw [Members.Desired, Members.Desired, slots]
  by_cases desired : members.Desired i
  · have prunes : between.Prunes (entries.map fun entry => between.records.key entry.slot) i :=
      ⟨same.mpr desired, out⟩
    have pruned := h.prunes.pruned i (List.mem_finRange i) prunes
    rw [slots] at pruned
    refine .inl ⟨desired, ?_, pruned.1, pruned.2⟩
    rw [h.prunes.ring]
    exact fun linked => linked.2 ⟨List.mem_finRange i, prunes⟩
  · have stays : ¬(i ∈ List.finRange n ∧
        between.Prunes (entries.map fun entry => between.records.key entry.slot) i) :=
      fun prunes => desired (same.mp prunes.2.1)
    rcases h.prunes.kept i stays with ⟨slots', retries'⟩
    exact .inr ⟨desired, slots'.trans slots, retries'.trans retries⟩

theorem Reconciles.desired {record : Record I A}
    (resides : (members'.records.slots i).resident = some record)
    (desired : record.isDesired = true) : ∃ entry ∈ entries, entry.slot = i := by
  by_contra none
  have away : i ∉ entries.map Entry.slot := by
    intro mem
    rcases List.mem_map.mp mem with ⟨entry, mem, same⟩
    exact none ⟨entry, mem, same⟩
  rw [Record.isDesired, Option.isSome_iff_ne_none] at desired
  rcases h.other away with ⟨⟨before, there, -⟩, -, -, pruned⟩ | ⟨never, same, -⟩
  · have after := pruned before there
    split at after
    · rcases after.2 with ⟨record', resides', retired⟩
      rw [resides] at resides'
      cases resides'
      exact desired retired.2.2.1
    · rw [after] at resides
      cases resides
  · rw [same] at resides
    exact never ⟨record, resides, desired⟩

/-- The member of an entry is the one of its endpoint. -/
theorem Reconciles.resident (mem : entry ∈ entries) : ∃ record,
      (members'.records.slots entry.slot).resident = some record ∧ record.isDesired = true ∧
        record.id = entry.value.id ∧ record.addr = entry.value.addr := by
  have placed := h.placed mem
  rcases h.serves entry mem with ⟨k, found, serves⟩
  cases entry with
  | keep i value =>
    rcases stays_some serves with ⟨record, endpoint, resides, desired, found', id⟩
    rw [found] at found'
    cases found'
    refine ⟨{ record with addr := value.addr }, ?_, ?_, id, rfl⟩
    · exact congrArg Slot.resident (placed.2 record resides)
    · rw [Record.isDesired, Option.isSome_iff_ne_none]
      exact desired
  | new vacant value => exact ⟨.new value.id value.addr, placed.1, rfl, rfl, rfl⟩

theorem Reconciles.entry_of {endpoint : Endpoint I A} (mem : endpoint ∈ snapshot.endpoints) :
    ∃ entry ∈ entries, entry.value = endpoint := by
  rw [← h.values] at mem
  exact List.mem_map.mp mem

theorem Reconciles.value_mem (mem : entry ∈ entries) : entry.value ∈ snapshot.endpoints := by
  rw [← h.values]
  exact List.mem_map_of_mem mem

theorem Reconciles.single {other : Entry I A n} (mem : entry ∈ entries) (mem' : other ∈ entries)
    (same : entry.value.id = other.value.id) : entry = other := by
  have ids := h.ids
  rw [← h.values, List.map_map] at ids
  exact List.inj_on_of_nodup_map ids mem mem' same

end

end Reconciles

end Apply

end Dope.Manifold.Service
