import Dope.Manifold.Lanes

/-! # Runs of a deadline book

Every operation edits the row of one key. The row stays in the heap under the
earliest of its deadlines, and no deadline ends but those the operation is
about.
-/

namespace Dope.Manifold.Deadline

open Run Function
open Core.Clock (clampAdd)
open Resident (Row View)

variable {H K ι : Type}

/-- A lane stands in the heap when it has a deadline, under the earliest one. -/
def Filed (row : Row K Entry Lane) : Prop :=
  row.resident.next = row.occupant.map Prod.snd

/-- The books differ in the row of one key. There, deadlines of kinds that do
not end are kept, and the idle origin is not moved back. -/
structure Edits (heap : Resident.Heap H K ι Entry Lane) (book next : H) (key : K)
    (ends : Kind → Prop) : Prop where
  others : ∀ i, i ≠ heap.index key → heap.row next i = heap.row book i
  filed : Filed (heap.row next (heap.index key))
  kept : ∀ kind instant,
    (heap.row book (heap.index key)).resident.deadline kind = some instant → ¬ ends kind →
      (heap.row next (heap.index key)).resident.deadline kind = some instant
  origin : ∀ recv recv', (heap.row book (heap.index key)).resident.reception = some recv →
    (heap.row next (heap.index key)).resident.reception = some recv' →
    (heap.row book (heap.index key)).occupant.map Prod.fst =
      (heap.row next (heap.index key)).occupant.map Prod.fst → recv.since ≤ recv'.since

namespace Edits

variable {heap : Resident.Heap H K ι Entry Lane} {book next : H} {key : K} {ends : Kind → Prop}

theorem same (inv : ∀ i, Filed (heap.row book i)) (h : heap.row next = heap.row book) :
    Edits heap book next key ends where
  others := by
    intro i away
    rw [h]
  filed := by
    rw [h]
    exact inv _
  kept := by
    intro kind instant armed _
    rw [h]
    exact armed
  origin := by
    intro recv recv' found found' _
    rw [h, found] at found'
    cases found'
    exact Nat.le_refl _

theorem narrow (h : Edits heap book next key ends) {fewer : Kind → Prop}
    (covers : ∀ kind instant,
      (heap.row book (heap.index key)).resident.deadline kind = some instant → ends kind →
        fewer kind) :
    Edits heap book next key fewer :=
  { h with kept := fun kind instant armed lasts =>
      h.kept kind instant armed (fun ends => lasts (covers kind instant armed ends)) }

theorem of_update [DecidableEq ι] {row : Row K Entry Lane}
    (h : heap.row next = update (heap.row book) (heap.index key) row)
    (filed : Filed row)
    (kept : ∀ kind instant,
      (heap.row book (heap.index key)).resident.deadline kind = some instant → ¬ ends kind →
        row.resident.deadline kind = some instant)
    (origin : ∀ recv recv', (heap.row book (heap.index key)).resident.reception = some recv →
      row.resident.reception = some recv' →
      (heap.row book (heap.index key)).occupant.map Prod.fst = row.occupant.map Prod.fst →
      recv.since ≤ recv'.since) :
    Edits heap book next key ends := by
  have here : heap.row next (heap.index key) = row := by
    rw [h, update_self]
  constructor
  · intro i away
    rw [h, update_of_ne away]
  · rw [here]
    exact filed
  · rw [here]
    exact kept
  · rw [here]
    exact origin

end Edits

namespace Book

variable [DecidableEq K] {heap : Resident.Heap H K ι Entry Lane}
variable {book : H} {key : K} {limit : Nat}

theorem silent (inv : ∀ i, Filed (heap.row book i)) (vacant : heap.view book key = .vacant)
    (kind : Kind) : (heap.row book (heap.index key)).resident.deadline kind = none := by
  have filed := inv (heap.index key)
  unfold Filed at filed
  rw [Resident.Heap.view_vacant vacant] at filed
  exact Lane.next_eq_none.mp filed kind

theorem silent_reception (inv : ∀ i, Filed (heap.row book i))
    (vacant : heap.view book key = .vacant) :
    (heap.row book (heap.index key)).resident.reception = none :=
  Option.map_eq_none_iff.mp (silent inv vacant .inbound)

variable [DecidableEq ι]

/-- An update of a row: a new lane where the key finds none, an edited lane
where it finds its own. -/
theorem update_edits (lawful : heap.Lawful Entry.le) (inv : ∀ i, Filed (heap.row book i))
    (init : Lane × Entry) (edit : Lane → Lane × Entry) {ends : Kind → Prop}
    (first : init.1.next = some init.2)
    (occupied : ∀ priority lane, heap.view book key = .occupied priority lane →
      (edit lane).1.next = some (edit lane).2 ∧
      (∀ kind instant, lane.deadline kind = some instant → ¬ ends kind →
        (edit lane).1.deadline kind = some instant) ∧
      ∀ recv recv', lane.reception = some recv → (edit lane).1.reception = some recv' →
        recv.since ≤ recv'.since)
    (conflict : heap.view book key = .conflict → ∀ kind, ends kind) :
    Edits heap book (heap.update book key init edit) key ends := by
  cases found : heap.view book key with
  | vacant =>
    refine .of_update (lawful.update_vacant found init edit) first ?_ ?_
    · intro kind instant armed
      rw [silent inv found] at armed
      cases armed
    · intro recv recv' held
      rw [silent_reception inv found] at held
      cases held
  | occupied priority lane =>
    have row := Resident.Heap.view_occupied found
    rcases occupied priority lane found with ⟨next, kept, origin⟩
    refine .of_update (lawful.update_occupied found init edit) next ?_ ?_
    · rw [row]
      exact kept
    · rw [row]
      intro recv recv' held held' _
      exact origin recv recv' held held'
  | conflict =>
    rcases lawful.update_conflict found init edit with left | taken
    · exact .same inv left
    · refine .of_update taken first ?_ ?_
      · intro kind _ _ lasts
        exact absurd (conflict found kind) lasts
      · intro recv recv' _ _ key'
        rcases Resident.Heap.view_conflict found with ⟨other, priority, stands, apart⟩
        rw [stands] at key'
        cases key'
        exact absurd rfl apart

/-! ## Operations -/

theorem next_set (lane : Lane) (kind : Fixed) (instant : Nat) :
    (lane.set kind instant).1.next = some (lane.set kind instant).2 := by
  have armed : (lane.put kind (some instant)).deadline kind.kind = some instant := by
    rw [Lane.deadline_put, if_pos rfl]
  exact Lane.next_of_armed armed _

theorem next_armRecv (lane : Lane) (since instant : Nat) :
    (lane.armRecv since instant).next =
      some ((lane.armRecv since instant).next.getD ⟨instant, .inbound⟩) := by
  have armed : (lane.armRecv since instant).deadline .inbound = some instant := by
    rw [Lane.deadline_armRecv, if_pos rfl]
  exact Lane.next_of_armed armed _

theorem next_single (kind : Fixed) (instant : Nat) :
    (Lane.empty.put kind (some instant)).next = some ⟨instant, kind.kind⟩ := by
  cases kind <;> rfl

section

variable (lawful : heap.Lawful Entry.le) (inv : ∀ i, Filed (heap.row book i))

include lawful inv

theorem arm_edits (kind : Fixed) (instant : Nat) :
    Edits heap book (arm heap book key kind instant) key
      (fun other => other = kind.kind ∨ heap.view book key = .conflict) := by
  refine update_edits lawful inv _ _ (next_single kind instant) ?_ (fun found _ => .inr found)
  intro priority lane found
  refine ⟨next_set lane kind instant, ?_, ?_⟩
  · intro other instant' armed lasts
    show (lane.put kind (some instant)).deadline other = some instant'
    rw [Lane.deadline_put, if_neg (fun same => lasts (.inl same))]
    exact armed
  · intro recv recv' held held'
    have same : lane.reception = some recv' := held'
    rw [held] at same
    cases same
    exact Nat.le_refl _

theorem ensureAfter_edits (kind : Fixed) (now window : Nat) :
    Edits heap book (ensureAfter heap limit book key kind now window) key
      (fun _ => heap.view book key = .conflict) := by
  have fresh : ∀ instant, ((heap.row book (heap.index key)).resident.deadline kind.kind = none ∨
      heap.view book key = .conflict) → Edits heap book (arm heap book key kind instant) key
      (fun _ => heap.view book key = .conflict) := by
    intro instant idle
    refine (arm_edits lawful inv kind instant).narrow ?_
    intro other instant' armed ended
    rcases ended with rfl | conflict
    · rcases idle with idle | conflict
      · rw [idle] at armed
        cases armed
      · exact conflict
    · exact conflict
  unfold ensureAfter
  cases found : heap.view book key with
  | vacant =>
    rw [found] at fresh
    exact fresh _ (.inl (silent inv found _))
  | conflict =>
    rw [found] at fresh
    exact fresh _ (.inr rfl)
  | occupied priority lane =>
    dsimp only
    have row := Resident.Heap.view_occupied found
    split
    · exact .same inv rfl
    · rename_i idle
      rw [found] at fresh
      refine fresh _ (.inl ?_)
      rw [row, Lane.deadline_kind]
      simpa [Lane.isArmed] using idle

theorem closing_edits (now window : Nat) :
    Edits heap book (closing heap limit book key now window) key
      (fun other => other ≠ .send ∨ heap.view book key = .conflict) := by
  unfold closing
  refine update_edits lawful inv _ _ (next_set _ _ _) ?_ (fun found _ => .inr found)
  intro priority lane found
  rw [found]
  dsimp only
  refine ⟨next_set _ _ _, ?_, ?_⟩
  · intro kind instant armed lasts
    have sends : kind = .send := by
      by_contra other
      exact lasts (.inl other)
    subst sends
    have same : lane.fixed .send = some instant := armed
    rw [same]
    rfl
  · intro recv recv' _ held
    cases held

theorem armInbound_edits (now : Nat) (seen : Option Nat) (window : Nat) :
    Edits heap book (armInbound heap limit book key now seen window) key
      (fun other => other = .inbound ∨ heap.view book key = .conflict) := by
  have update : ∀ since instant, (∀ priority lane recv, heap.view book key = .occupied priority lane →
      lane.reception = some recv → recv.since ≤ since) →
      Edits heap book (heap.update book key (Lane.empty.armRecv since instant, ⟨instant, .inbound⟩)
        (fun lane => (lane.armRecv since instant,
          (lane.armRecv since instant).next.getD ⟨instant, .inbound⟩))) key
        (fun other => other = .inbound ∨ heap.view book key = .conflict) := by
    intro since instant later
    refine update_edits lawful inv _ _ rfl ?_ (fun found _ => .inr found)
    intro priority lane found
    refine ⟨next_armRecv lane since instant, ?_, ?_⟩
    · intro other instant' armed lasts
      dsimp only
      rw [Lane.deadline_armRecv, if_neg (fun same => lasts (.inl same))]
      exact armed
    · intro recv recv' held held'
      cases held'
      exact later priority lane recv found held
  unfold armInbound
  dsimp only
  cases found : heap.view book key with
  | vacant =>
    rw [found] at update
    refine update _ _ ?_
    intro priority lane recv other
    cases other
  | conflict =>
    rw [found] at update
    refine update _ _ ?_
    intro priority lane recv other
    cases other
  | occupied priority lane =>
    dsimp only
    split
    · exact .same inv rfl
    · rw [found] at update
      refine update _ _ ?_
      intro priority' lane' recv other held
      cases other
      exact Lane.since_le_recvSince held now seen

theorem cancel_edits (kind : Kind) :
    Edits heap book (cancel heap book key kind) key (fun other => other = kind) := by
  unfold cancel
  cases found : heap.view book key with
  | vacant | conflict => exact .same inv rfl
  | occupied priority lane =>
    have row := Resident.Heap.view_occupied found
    have filed : lane.next = some priority := by
      have filed := inv (heap.index key)
      rw [row] at filed
      exact filed
    have edited := lawful.edit book key (lane.cancel kind)
    rw [row] at edited
    have here : heap.row (heap.edit book key (lane.cancel kind)) (heap.index key) =
        ⟨some (key, priority), lane.cancel kind⟩ := by
      rw [edited, update_self]
    have view := Resident.Heap.view_of_row here
    have kept : ∀ other instant,
        (heap.row book (heap.index key)).resident.deadline other = some instant →
        ¬ other = kind → (lane.cancel kind).deadline other = some instant := by
      intro other instant armed lasts
      rw [row] at armed
      rw [Lane.deadline_cancel, if_neg lasts]
      exact armed
    have origin : ∀ recv recv',
        (heap.row book (heap.index key)).resident.reception = some recv →
        (lane.cancel kind).reception = some recv' → recv.since ≤ recv'.since := by
      intro recv recv' held held'
      have same := Lane.reception_cancel held'
      rw [row] at held
      rw [show lane.reception = some recv from held] at same
      cases same
      exact Nat.le_refl _
    dsimp only
    split
    · rename_i other
      exact .of_update edited (Lane.next_cancel filed other) kept
        (fun recv recv' held held' _ => origin recv recv' held held')
    · cases next : (lane.cancel kind).next with
      | none =>
        have retired := lawful.retire view
        rw [edited, update_idem] at retired
        exact .of_update retired next kept
          (fun recv recv' held held' _ => origin recv recv' held held')
      | some entry =>
        have placed := lawful.set view entry
        rw [edited, update_idem] at placed
        exact .of_update placed next kept
          (fun recv recv' held held' _ => origin recv recv' held held')

theorem clear_edits : Edits heap book (clear heap book key) key (fun _ => True) := by
  have cleared : heap.row (clear heap book key) =
      update (heap.row book) (heap.index key) ⟨none, Lane.empty⟩ →
      Edits heap book (clear heap book key) key (fun _ => True) := by
    intro row
    refine .of_update row rfl ?_ ?_
    · intro kind instant _ lasts
      exact absurd trivial lasts
    · intro recv recv' _ held
      cases held
  by_cases conflict : heap.view book key = .conflict
  · rcases lawful.clear_conflict conflict Lane.empty with left | taken
    · exact .same inv left
    · exact cleared taken
  · exact cleared (lawful.clear conflict Lane.empty)

/-! ## Expiry -/

end

/-- The popped lane goes back under what is left of it, or stays out. -/
theorem commitNext_row (lawful : heap.Lawful Entry.le) {popped : H} {lane : Lane}
    (out : heap.row popped = update (heap.row book) (heap.index key) ⟨none, lane⟩) :
    ∃ row : Row K Entry Lane, heap.row (commitNext heap popped key lane) =
        update (heap.row book) (heap.index key) row ∧
      Filed row ∧ row.resident = lane := by
  have here : heap.row popped (heap.index key) = ⟨none, lane⟩ := by
    rw [out, update_self]
  unfold commitNext
  cases next : lane.next with
  | none => exact ⟨⟨none, lane⟩, out, next, rfl⟩
  | some entry =>
    have back := lawful.reinsert (Resident.Heap.view_of_none here) entry
    rw [here, out, update_idem] at back
    exact ⟨⟨some (key, entry), lane⟩, back, next, rfl⟩

/-- A resolution retires a lane when it clears it, when another deadline than the inbound one
expired, and when the inbound one would be due again at once. -/
def Retires (limit : Nat) (lane : Lane) (kind : Kind) : Resolution → Prop
  | .clear => True
  | .cancelRecv => kind ≠ .inbound
  | .rearmRecv now seen window =>
      kind ≠ .inbound ∨ clampAdd limit (lane.recvSince now seen) window ≤ now

/-- A resolution edits the popped lane only, and retires it or ends nothing but
the inbound deadline. One that is armed again holds its new instant. -/
theorem resolve_edits (lawful : heap.Lawful Entry.le) {priority : Entry} {lane : Lane}
    (found : heap.view book key = .occupied priority lane) (kind : Kind) (resolution : Resolution) :
    Edits heap book (resolve heap limit (heap.remove book key) key kind resolution).2 key
        (fun other => kind = .inbound ∧ other = .inbound ∨ Retires limit lane kind resolution) ∧
      ((resolve heap limit (heap.remove book key) key kind resolution).1 = .retired ↔
        Retires limit lane kind resolution) ∧
      ∀ now seen window, resolution = .rearmRecv now seen window →
        ¬ Retires limit lane kind resolution →
        (heap.row (resolve heap limit (heap.remove book key) key kind resolution).2
          (heap.index key)).resident.deadline .inbound =
            some (clampAdd limit (lane.recvSince now seen) window) := by
  have row := Resident.Heap.view_occupied found
  have out := lawful.remove found
  have here : heap.row (heap.remove book key) (heap.index key) = ⟨none, lane⟩ := by
    rw [out, update_self]
  have edited : ∀ after, heap.row (heap.edit (heap.remove book key) key after) =
      update (heap.row book) (heap.index key) ⟨none, after⟩ := by
    intro after
    rw [lawful.edit, here, out, update_idem]
  have retired : ∀ ends : Kind → Prop, (∀ other, ends other) →
      Edits heap book (heap.edit (heap.remove book key) key Lane.empty) key ends := by
    intro ends all
    refine .of_update (edited Lane.empty) rfl ?_ ?_
    · intro other instant _ lasts
      exact absurd (all other) lasts
    · intro recv recv' _ held
      cases held
  have kept : ∀ after : Lane, (∀ other, other ≠ .inbound → after.deadline other = lane.deadline other) →
      (∀ recv recv', lane.reception = some recv → after.reception = some recv' →
        recv.since ≤ recv'.since) → ∀ retires : Prop,
      Edits heap book (commitNext heap (heap.edit (heap.remove book key) key after) key after) key
        (fun other => Kind.inbound = .inbound ∧ other = .inbound ∨ retires) ∧
      (heap.row (commitNext heap (heap.edit (heap.remove book key) key after) key after)
        (heap.index key)).resident = after := by
    intro after same origin retires
    rcases commitNext_row lawful (edited after) with ⟨left, committed, filed, resident⟩
    refine ⟨.of_update committed filed ?_ ?_, ?_⟩
    · intro other instant armed lasts
      rw [row] at armed
      rw [resident, same other (fun inbound => lasts (.inl ⟨rfl, inbound⟩))]
      exact armed
    · intro recv recv' held held' _
      rw [row] at held
      rw [resident] at held'
      exact origin recv recv' held held'
    · rw [committed, update_self]
      exact resident
  unfold resolve
  split
  · refine ⟨(kept _ ?_ ?_ _).1, iff_of_false (by simp) (by simp [Retires]), by rintro _ _ _ ⟨⟩⟩
    · intro other away
      rw [here]
      cases other <;> first | rfl | exact absurd rfl away
    · intro recv recv' _ held
      cases held
  · rename_i now seen window
    unfold rearmRecv
    rw [here]
    dsimp only
    by_cases due : clampAdd limit (lane.recvSince now seen) window ≤ now
    · rw [if_pos due]
      have retires : Retires limit lane .inbound (.rearmRecv now seen window) := .inr due
      exact ⟨retired _ (fun _ => .inr retires), iff_of_true rfl retires,
        fun _ _ _ _ lasts => absurd retires lasts⟩
    · rw [if_neg due]
      have rearmed := kept (lane.armRecv (lane.recvSince now seen)
        (clampAdd limit (lane.recvSince now seen) window)) ?_ ?_
        (Retires limit lane .inbound (.rearmRecv now seen window))
      · refine ⟨rearmed.1, iff_of_false (by simp) (by simpa [Retires] using due), ?_⟩
        rintro _ _ _ ⟨⟩ _
        rw [rearmed.2, Lane.deadline_armRecv, if_pos rfl]
      · intro other away
        rw [Lane.deadline_armRecv, if_neg away]
      · intro recv recv' held held'
        cases held'
        exact Lane.since_le_recvSince held now seen
  · rename_i cancels rearms
    have retires : Retires limit lane kind resolution := by
      cases resolution with
      | clear => trivial
      | cancelRecv => exact fun inbound => cancels inbound rfl
      | rearmRecv now seen window => exact .inl fun inbound => rearms now seen window inbound rfl
    exact ⟨retired _ (fun _ => .inr retires), iff_of_true rfl retires,
      fun _ _ _ _ lasts => absurd retires lasts⟩

theorem popExpired_some (lawful : heap.Lawful Entry.le) {now : Nat} {priority : Entry} {popped : H}
    (h : popExpired heap book now = some (key, priority, popped)) :
    priority.instant ≤ now ∧ popped = heap.remove book key ∧
      ∃ lane, heap.view book key = .occupied priority lane := by
  unfold popExpired at h
  split at h
  · cases h
  · rename_i key' priority' top
    split at h
    · rename_i due
      cases h
      refine ⟨by omega, rfl, (heap.row book (heap.index key)).resident, ?_⟩
      refine Resident.Heap.view_of_row ?_
      rw [← (lawful.first_some top).1]
    · cases h

theorem popExpired_none (lawful : heap.Lawful Entry.le) (inv : ∀ i, Filed (heap.row book i))
    {now : Nat} (h : popExpired heap book now = none) (i : ι) (kind : Kind) (instant : Nat)
    (armed : (heap.row book i).resident.deadline kind = some instant) : now < instant := by
  have filed := inv i
  unfold Filed at filed
  cases occupant : (heap.row book i).occupant with
  | none =>
    rw [occupant] at filed
    rw [Lane.next_eq_none.mp filed] at armed
    cases armed
  | some pair =>
    rcases pair with ⟨key, priority⟩
    rw [occupant] at filed
    have under := (Lane.next_eq_some.mp filed).2 kind instant armed
    unfold popExpired at h
    split at h
    · rename_i empty
      rw [lawful.first_none empty] at occupant
      cases occupant
    · rename_i key' priority' top
      have first := (lawful.first_some top).2 i key priority occupant
      split at h
      · cases h
      · unfold Entry.le at under first
        dsimp only at under
        omega

end Book

/-! ## Runs -/

inductive Input (K : Type) where
  | armAt (key : K) (kind : Fixed) (instant : Nat)
  | ensureAfter (key : K) (kind : Fixed) (now window : Nat)
  | armInbound (key : K) (now : Nat) (seen : Option Nat) (window : Nat)
  | cancel (key : K) (kind : Kind)
  | closing (key : K) (now window : Nat)
  | clear (key : K)
  | expire (now : Nat) (resolution : K → Kind → Resolution)

inductive Output (K : Type) where
  | done
  | expired (popped : Option (K × Entry × Fate))

namespace Book

variable [DecidableEq K] (heap : Resident.Heap H K ι Entry Lane) (limit : Nat)

def step (book : H) : Input K → Output K × H
  | .armAt key kind instant => (.done, armAt heap book key kind instant)
  | .ensureAfter key kind now window => (.done, ensureAfter heap limit book key kind now window)
  | .armInbound key now seen window => (.done, armInbound heap limit book key now seen window)
  | .cancel key kind => (.done, cancel heap book key kind)
  | .closing key now window => (.done, closing heap limit book key now window)
  | .clear key => (.done, clear heap book key)
  | .expire now resolution =>
      match popExpired heap book now with
      | none => (.expired none, book)
      | some (key, entry, popped) =>
          let (fate, next) := resolve heap limit popped key entry.kind (resolution key entry.kind)
          (.expired (some (key, entry, fate)), next)

/-- Nothing faults, and any operation may come next. -/
def machine : Machine H (Input K) (Output K) Empty where
  start book := book = tryNew heap
  allowed _ _ := True
  step book input := .ok (step heap limit book input)

/-- The deadlines that an operation is about, and those of a lane that a resolution
retires or an operation takes from another key. -/
def Ends (book : H) : Input K → Output K → ι → Kind → Prop
  | .armAt key kind _, _, i, other =>
      heap.index key = i ∧ (other = kind.kind ∨ heap.view book key = .conflict)
  | .ensureAfter key _ _ _, _, i, _ => heap.index key = i ∧ heap.view book key = .conflict
  | .armInbound key _ _ _, _, i, other =>
      heap.index key = i ∧ (other = .inbound ∨ heap.view book key = .conflict)
  | .cancel key kind, _, i, other => heap.index key = i ∧ other = kind
  | .closing key _ _, _, i, other =>
      heap.index key = i ∧ (other ≠ .send ∨ heap.view book key = .conflict)
  | .clear key, _, i, _ => heap.index key = i
  | .expire _ resolution, .expired (some (key, entry, _)), i, other =>
      heap.index key = i ∧ (entry.kind = .inbound ∧ other = .inbound ∨
        Retires limit (heap.row book i).resident entry.kind (resolution key entry.kind))
  | .expire _ _, _, _, _ => False

/-- The instants that an operation arms, unless another key holds the row. -/
def Arms (book : H) : Input K → Output K → ι → Kind → Nat → Prop
  | .armAt key kind instant, _, i, other, armed =>
      heap.index key = i ∧ heap.view book key ≠ .conflict ∧ other = kind.kind ∧ armed = instant
  | .ensureAfter key kind now window, _, i, other, armed =>
      heap.index key = i ∧ heap.view book key ≠ .conflict ∧ other = kind.kind ∧
        armed = ((heap.row book i).resident.deadline other).getD (clampAdd limit now window)
  | .armInbound key now seen window, _, i, other, armed =>
      heap.index key = i ∧ heap.view book key ≠ .conflict ∧ other = .inbound ∧
        armed = clampAdd limit ((heap.row book i).resident.recvSince now seen) window
  | .closing key now window, _, i, other, armed =>
      heap.index key = i ∧ heap.view book key ≠ .conflict ∧ other = .send ∧
        armed = ((heap.row book i).resident.deadline other).getD (clampAdd limit now window)
  | .expire _ resolution, .expired (some (key, entry, _)), i, other, armed =>
      heap.index key = i ∧ other = .inbound ∧
        ¬ Retires limit (heap.row book i).resident entry.kind (resolution key entry.kind) ∧
        ∃ now seen window, resolution key entry.kind = .rearmRecv now seen window ∧
          armed = clampAdd limit ((heap.row book i).resident.recvSince now seen) window
  | .cancel _ _, _, _, _, _ | .clear _, _, _, _, _ | .expire _ _, _, _, _, _ => False

variable {heap limit} [DecidableEq ι] {book : H}

section

variable (lawful : heap.Lawful Entry.le)

include lawful

theorem step_edits (inv : ∀ i, Filed (heap.row book i)) (input : Input K) :
    (step heap limit book input).2 = book ∨
      ∃ key ends, Edits heap book (step heap limit book input).2 key ends ∧
        ∀ kind, ends kind →
          Ends heap limit book input (step heap limit book input).1 (heap.index key) kind := by
  cases input with
  | armAt key kind instant =>
    exact .inr ⟨key, _, arm_edits lawful inv kind instant, fun _ ended => ⟨rfl, ended⟩⟩
  | ensureAfter key kind now window =>
    exact .inr ⟨key, _, ensureAfter_edits lawful inv kind now window, fun _ ended => ⟨rfl, ended⟩⟩
  | armInbound key now seen window =>
    exact .inr ⟨key, _, armInbound_edits lawful inv now seen window, fun _ ended => ⟨rfl, ended⟩⟩
  | cancel key kind =>
    exact .inr ⟨key, _, cancel_edits lawful inv kind, fun _ ended => ⟨rfl, ended⟩⟩
  | closing key now window =>
    exact .inr ⟨key, _, closing_edits lawful inv now window, fun _ ended => ⟨rfl, ended⟩⟩
  | clear key => exact .inr ⟨key, _, clear_edits lawful inv, fun _ _ => rfl⟩
  | expire now resolution =>
    cases popped : popExpired heap book now with
    | none =>
      left
      show (step heap limit book (.expire now resolution)).2 = book
      unfold step
      dsimp only
      rw [popped]
    | some found =>
      rcases found with ⟨key, entry, left⟩
      rcases popExpired_some lawful popped with ⟨-, rfl, lane, view⟩
      have ran : step heap limit book (.expire now resolution) =
          (.expired (some (key, entry, (resolve heap limit (heap.remove book key) key
            entry.kind (resolution key entry.kind)).1)),
            (resolve heap limit (heap.remove book key) key entry.kind
              (resolution key entry.kind)).2) := by
        unfold step
        dsimp only
        rw [popped]
      rw [ran]
      refine .inr ⟨key, _, (resolve_edits lawful view entry.kind (resolution key entry.kind)).1,
        fun _ ended => ⟨rfl, ?_⟩⟩
      rw [Resident.Heap.view_occupied view]
      exact ended

/-- The lane after an update, where no other key holds the row. -/
theorem update_resident {key : K} (free : heap.view book key ≠ .conflict) (init : Lane × Entry)
    (edit : Lane → Lane × Entry) :
    (heap.row (heap.update book key init edit) (heap.index key)).resident =
      match heap.view book key with
      | .occupied _ lane => (edit lane).1
      | .vacant | .conflict => init.1 := by
  cases found : heap.view book key with
  | vacant => rw [lawful.update_vacant found, update_self]
  | occupied priority lane => rw [lawful.update_occupied found, update_self]
  | conflict => exact absurd found free

theorem arm_arms {key : K} (free : heap.view book key ≠ .conflict) (kind : Fixed) (instant : Nat) :
    (heap.row (arm heap book key kind instant) (heap.index key)).resident.deadline kind.kind =
      some instant := by
  unfold arm
  rw [update_resident lawful free]
  split
  · exact (Lane.deadline_put ..).trans (if_pos rfl)
  · rw [Lane.deadline_put, if_pos rfl]
  · rw [Lane.deadline_put, if_pos rfl]

/-- What is armed is armed for the stated instant. -/
theorem step_arms (inv : ∀ i, Filed (heap.row book i)) {input : Input K} {i : ι} {kind : Kind}
    {instant : Nat}
    (arms : Arms heap limit book input (step heap limit book input).1 i kind instant) :
    (heap.row (step heap limit book input).2 i).resident.deadline kind = some instant := by
  cases input with
  | armAt key kind instant =>
    rcases arms with ⟨rfl, free, rfl, rfl⟩
    exact arm_arms lawful free kind _
  | ensureAfter key kind now window =>
    rcases arms with ⟨rfl, free, rfl, rfl⟩
    show (heap.row (ensureAfter heap limit book key kind now window) _).resident.deadline _ = _
    unfold ensureAfter
    cases found : heap.view book key with
    | vacant =>
      rw [silent inv found]
      exact arm_arms lawful free kind _
    | occupied priority lane =>
      have row := Resident.Heap.view_occupied found
      dsimp only
      rw [row]
      cases armed : lane.fixed kind with
      | none =>
        have here : lane.deadline kind.kind = none := (Lane.deadline_kind lane kind).trans armed
        rw [if_neg (by simp [Lane.isArmed, armed]), here]
        exact arm_arms lawful free kind _
      | some instant =>
        have here : lane.deadline kind.kind = some instant :=
          (Lane.deadline_kind lane kind).trans armed
        rw [if_pos (by simp [Lane.isArmed, armed]), row, here]
        rfl
    | conflict => exact absurd found free
  | armInbound key now seen window =>
    rcases arms with ⟨rfl, free, rfl, rfl⟩
    show (heap.row (armInbound heap limit book key now seen window) _).resident.deadline _ = _
    have resident := update_resident lawful free
    unfold armInbound
    cases found : heap.view book key with
    | vacant =>
      rw [found] at resident
      dsimp only
      rw [resident, Lane.deadline_armRecv, if_pos rfl, Lane.recvSince, silent_reception inv found]
    | occupied priority lane =>
      have row := Resident.Heap.view_occupied found
      rw [found] at resident
      dsimp only
      rw [row]
      split
      · next same =>
          rw [row, Lane.deadline, same]
          rfl
      · rw [resident, Lane.deadline_armRecv, if_pos rfl]
    | conflict => exact absurd found free
  | cancel key kind => exact absurd arms id
  | closing key now window =>
    rcases arms with ⟨rfl, free, rfl, rfl⟩
    show (heap.row (closing heap limit book key now window) _).resident.deadline _ = _
    unfold closing
    rw [update_resident lawful free]
    cases found : heap.view book key with
    | vacant =>
      rw [silent inv found]
      rfl
    | occupied priority lane =>
      rw [Resident.Heap.view_occupied found]
      rfl
    | conflict => exact absurd found free
  | clear key => exact absurd arms id
  | expire now resolution =>
    unfold step at arms ⊢
    dsimp only at arms ⊢
    cases popped : popExpired heap book now with
    | none =>
      rw [popped] at arms
      exact absurd arms id
    | some found =>
      rcases found with ⟨key, entry, left⟩
      rcases popExpired_some lawful popped with ⟨-, rfl, lane, view⟩
      rw [popped] at arms
      rcases arms with ⟨rfl, rfl, lasts, now', seen, window, same, rfl⟩
      rw [Resident.Heap.view_occupied view] at lasts ⊢
      exact (resolve_edits lawful view entry.kind _).2.2 now' seen window same lasts

theorem step_filed (inv : ∀ i, Filed (heap.row book i)) (input : Input K) (i : ι) :
    Filed (heap.row (step heap limit book input).2 i) := by
  rcases step_edits lawful inv input with same | ⟨key, ends, edits, -⟩
  · rw [same]
    exact inv i
  · by_cases here : i = heap.index key
    · rw [here]
      exact edits.filed
    · rw [edits.others i here]
      exact inv i

theorem filed_invariant :
    (machine heap limit).Invariant (fun book => ∀ i, Filed (heap.row book i)) where
  start := by
    intro book started i
    rw [started]
    unfold tryNew
    rw [lawful.new]
    rfl
  step := by
    intro book input inv _
    exact ⟨_, _, rfl, step_filed lawful inv input⟩

end

/-- In every run a lane is in the heap exactly when it has an armed deadline,
under the least of them. What expires is due and nothing due is passed over, and its
lane is retired only if its resolution says so. A deadline that an operation is not
about stays armed, one that it arms holds the stated instant, and the idle origin of
a connection does not move back. -/
theorem reachable_filed (lawful : heap.Lawful Entry.le)
    (h : (machine heap limit).Reachable book) :
    (∀ i, ((heap.row book i).occupant = none ↔
        ∀ kind, (heap.row book i).resident.deadline kind = none) ∧
      ∀ key priority, (heap.row book i).occupant = some (key, priority) →
        (heap.row book i).resident.Least priority) ∧
    (∀ now resolution key entry fate,
      (step heap limit book (.expire now resolution)).1 = .expired (some (key, entry, fate)) →
        entry.instant ≤ now ∧
        (heap.row book (heap.index key)).resident.deadline entry.kind = some entry.instant ∧
        (fate = .retired ↔ Retires limit (heap.row book (heap.index key)).resident entry.kind
          (resolution key entry.kind))) ∧
    (∀ now resolution, (step heap limit book (.expire now resolution)).1 = .expired none →
      ∀ i kind instant, (heap.row book i).resident.deadline kind = some instant → now < instant) ∧
    ∀ input i,
      (∀ kind instant, (heap.row book i).resident.deadline kind = some instant →
        ¬ Ends heap limit book input (step heap limit book input).1 i kind →
        (heap.row (step heap limit book input).2 i).resident.deadline kind = some instant) ∧
      (∀ kind instant, Arms heap limit book input (step heap limit book input).1 i kind instant →
        (heap.row (step heap limit book input).2 i).resident.deadline kind = some instant) ∧
      ∀ recv recv', (heap.row book i).resident.reception = some recv →
        (heap.row (step heap limit book input).2 i).resident.reception = some recv' →
        (heap.row book i).occupant.map Prod.fst =
          (heap.row (step heap limit book input).2 i).occupant.map Prod.fst →
        recv.since ≤ recv'.since := by
  have inv := (filed_invariant (K := K) (H := H) lawful).holds h
  refine ⟨?_, ?_, ?_, ?_⟩
  · intro i
    have filed := inv i
    unfold Filed at filed
    refine ⟨?_, ?_⟩
    · rw [← Lane.next_eq_none, filed, Option.map_eq_none_iff]
    · intro key priority stands
      rw [stands] at filed
      exact Lane.next_eq_some.mp filed
  · intro now resolution key entry fate out
    unfold step at out
    dsimp only at out
    split at out
    · cases out
    · rename_i key' entry' popped found
      cases out
      rcases popExpired_some lawful found with ⟨due, rfl, lane, view⟩
      have filed := inv (heap.index key)
      rw [Resident.Heap.view_occupied view] at filed ⊢
      exact ⟨due, (Lane.next_eq_some.mp filed).1, (resolve_edits lawful view _ _).2.1⟩
  · intro now resolution out
    unfold step at out
    dsimp only at out
    split at out
    · rename_i found
      exact popExpired_none lawful inv found
    · cases out
  · intro input i
    refine (and_congr_right fun _ => and_iff_right fun _ _ => step_arms lawful inv).mpr ?_
    rcases step_edits lawful inv input with same | ⟨key, ends, edits, within⟩
    · rw [same]
      refine ⟨fun _ _ armed _ => armed, ?_⟩
      intro recv recv' held held' _
      rw [held] at held'
      cases held'
      exact Nat.le_refl _
    · by_cases here : i = heap.index key
      · subst here
        refine ⟨?_, edits.origin⟩
        intro kind instant armed lasts
        exact edits.kept kind instant armed (fun ended => lasts (within kind ended))
      · rw [edits.others i here]
        refine ⟨fun _ _ armed _ => armed, ?_⟩
        intro recv recv' held held' _
        rw [held] at held'
        cases held'
        exact Nat.le_refl _

theorem reachable_filed_example :
    ∃ book, (machine (Resident.Heap.single Nat Entry Lane) 1000).Reachable book ∧
      book.occupant = some (7, ⟨50, .connect⟩) ∧ book.resident.Least ⟨50, .connect⟩ := by
  have start : (machine (Resident.Heap.single Nat Entry Lane) 1000).Reachable _ := .start rfl
  have one := start.call (.armAt 7 .connect 50) trivial rfl
  have two := one.call (.armInbound 7 10 none 20) trivial rfl
  have three := two.call (.expire 30 fun _ _ => .cancelRecv) trivial rfl
  have filed := reachable_filed (Resident.Heap.single_lawful Entry.le_refl) three
  exact ⟨_, three, rfl, (filed.1 ()).2 7 ⟨50, .connect⟩ rfl⟩

end Book

end Dope.Manifold.Deadline
