import Dope.Manifold.Deadline

/-! # The earliest deadline of a lane

The scan of a lane finds the least entry over all its armed deadlines, and there
is only one such entry.
-/

namespace Dope.Manifold.Deadline

variable {kind : Kind}

theorem Kind.rank_injective {other : Kind} (h : kind.rank = other.rank) : kind = other := by
  cases kind <;> cases other <;> first | rfl | (exact absurd h (by decide))

variable {entry other : Entry}

theorem Entry.le_of_not_lt (h : ¬ entry.lt other) : other.le entry := by
  unfold lt at h
  unfold le
  omega

theorem Entry.le_of_lt (h : entry.lt other) : entry.le other := by
  unfold lt at h
  unfold le
  omega

theorem Entry.le_refl (entry : Entry) : entry.le entry := by
  unfold le
  omega

theorem Entry.le_trans {middle : Entry} (h : entry.le middle) (h' : middle.le other) :
    entry.le other := by
  unfold le at h h' ⊢
  omega

theorem Entry.le_antisymm (h : entry.le other) (h' : other.le entry) : entry = other := by
  unfold le at h h'
  have instant : entry.instant = other.instant := by omega
  have kind : entry.kind = other.kind := Kind.rank_injective (by omega)
  cases entry
  cases other
  dsimp only at instant kind
  rw [instant, kind]

variable {lane : Lane}

namespace Lane

/-- The armed deadline of a kind. -/
def deadline (lane : Lane) : Kind → Option Nat
  | .connect => lane.fixed .connect
  | .inbound => lane.reception.map (·.instant)
  | .send => lane.fixed .send
  | .lifetime => lane.fixed .lifetime

/-- The least of the armed deadlines. -/
def Least (lane : Lane) (entry : Entry) : Prop :=
  lane.deadline entry.kind = some entry.instant ∧
    ∀ kind instant, lane.deadline kind = some instant → entry.le ⟨instant, kind⟩

theorem deadline_kind (lane : Lane) (kind : Fixed) : lane.deadline kind.kind = lane.fixed kind := by
  cases kind <;> rfl

/-- What the scan returns is least among what it started with and what it
passed. -/
theorem nextFrom_spec (lane : Lane) (kinds : List Fixed) (next : Option Entry) :
    (lane.nextFrom kinds next = none ↔ next = none ∧ ∀ kind ∈ kinds, lane.fixed kind = none) ∧
      ∀ entry, lane.nextFrom kinds next = some entry →
        (next = some entry ∨ ∃ kind ∈ kinds, entry = ⟨entry.instant, kind.kind⟩ ∧
          lane.fixed kind = some entry.instant) ∧
        (∀ other, next = some other → entry.le other) ∧
        ∀ kind ∈ kinds, ∀ instant, lane.fixed kind = some instant →
          entry.le ⟨instant, kind.kind⟩ := by
  induction kinds generalizing next with
  | nil =>
    refine ⟨by simp [nextFrom], ?_⟩
    intro entry found
    refine ⟨.inl found, ?_, by simp⟩
    intro other same
    rw [nextFrom, same] at found
    cases found
    exact Entry.le_refl _
  | cons kind rest ih =>
    unfold nextFrom
    cases armed : lane.fixed kind with
    | none =>
      rcases ih next with ⟨none, some⟩
      refine ⟨by rw [none]; simp [armed], ?_⟩
      intro entry found
      rcases some entry found with ⟨from_, first, passed⟩
      refine ⟨from_.imp_right ?_, first, ?_⟩
      · rintro ⟨other, member, same⟩
        exact ⟨other, List.mem_cons_of_mem _ member, same⟩
      · intro other member instant found'
        rcases List.mem_cons.mp member with rfl | member
        · rw [armed] at found'
          cases found'
        · exact passed other member instant found'
    | some instant =>
      dsimp only
      split
      · rename_i before
        rcases ih (some ⟨instant, kind.kind⟩) with ⟨none, some⟩
        refine ⟨by rw [none]; simp [armed], ?_⟩
        intro entry found
        rcases some entry found with ⟨from_, first, passed⟩
        have under := first _ rfl
        refine ⟨.inr ?_, ?_, ?_⟩
        · rcases from_ with same | ⟨other, member, same⟩
          · cases same
            exact ⟨kind, List.mem_cons_self, rfl, armed⟩
          · exact ⟨other, List.mem_cons_of_mem _ member, same⟩
        · intro other same
          rw [same] at before
          exact Entry.le_trans under (Entry.le_of_lt (by simpa using before))
        · intro other member instant' found'
          rcases List.mem_cons.mp member with rfl | member
          · rw [armed] at found'
            cases found'
            exact under
          · exact passed other member instant' found'
      · rename_i before
        rcases ih next with ⟨none, some⟩
        rcases next with _ | held
        · simp at before
        have after : ¬ (⟨instant, kind.kind⟩ : Entry).lt held := by simpa using before
        refine ⟨by rw [none]; simp, ?_⟩
        intro entry found
        rcases some entry found with ⟨from_, first, passed⟩
        refine ⟨from_.imp_right ?_, first, ?_⟩
        · rintro ⟨other, member, same⟩
          exact ⟨other, List.mem_cons_of_mem _ member, same⟩
        · intro other member instant' found'
          rcases List.mem_cons.mp member with rfl | member
          · rw [armed] at found'
            cases found'
            exact Entry.le_trans (first held rfl) (Entry.le_of_not_lt after)
          · exact passed other member instant' found'

theorem next_eq_none : lane.next = none ↔ ∀ kind, lane.deadline kind = none := by
  unfold next
  rw [(lane.nextFrom_spec Fixed.all _).1]
  constructor
  · rintro ⟨reception, fixed⟩ kind
    cases kind with
    | inbound =>
      have silent : lane.reception = none := by simpa using reception
      rw [deadline, silent]
      rfl
    | connect => exact fixed .connect (by decide)
    | send => exact fixed .send (by decide)
    | lifetime => exact fixed .lifetime (by decide)
  · intro silent
    refine ⟨?_, ?_⟩
    · have reception := silent .inbound
      rw [deadline, Option.map_eq_none_iff] at reception
      rw [reception]
      rfl
    · intro kind _
      rw [← deadline_kind]
      exact silent kind.kind

theorem least_of_next (h : lane.next = some entry) : lane.Least entry := by
  rcases (lane.nextFrom_spec Fixed.all _).2 entry h with ⟨from_, first, passed⟩
  refine ⟨?_, ?_⟩
  · rcases from_ with same | ⟨kind, -, same, armed⟩
    · rcases Option.map_eq_some_iff.mp same with ⟨recv, found, rfl⟩
      rw [deadline, found]
      rfl
    · rw [same, deadline_kind]
      exact armed
  · intro kind instant armed
    have fixed : ∀ other : Fixed, other.kind = kind → entry.le ⟨instant, kind⟩ := by
      intro other same
      rw [← same, deadline_kind] at armed
      rw [← same]
      exact passed other (by cases other <;> decide) instant armed
    cases kind with
    | inbound =>
      rcases Option.map_eq_some_iff.mp armed with ⟨recv, found, rfl⟩
      exact first _ (by rw [found]; rfl)
    | connect => exact fixed .connect rfl
    | send => exact fixed .send rfl
    | lifetime => exact fixed .lifetime rfl

theorem next_eq_some : lane.next = some entry ↔ lane.Least entry := by
  constructor
  · exact least_of_next
  · rintro ⟨armed, least⟩
    cases found : lane.next with
    | none =>
      rw [next_eq_none.mp found] at armed
      cases armed
    | some other =>
      rcases least_of_next found with ⟨armed', least'⟩
      rw [Entry.le_antisymm (least' _ _ armed) (least _ _ armed')]

/-! ## Edits -/

theorem deadline_put (lane : Lane) (kind : Fixed) (value : Option Nat) (other : Kind) :
    (lane.put kind value).deadline other =
      if other = kind.kind then value else lane.deadline other := by
  cases kind <;> cases other <;> simp [put, deadline, Fixed.kind]

theorem deadline_cancel (lane : Lane) (kind other : Kind) :
    (lane.cancel kind).deadline other = if other = kind then none else lane.deadline other := by
  cases kind <;> cases other <;> simp [cancel, put, deadline]

theorem deadline_armRecv (lane : Lane) (since instant : Nat) (other : Kind) :
    (lane.armRecv since instant).deadline other =
      if other = .inbound then some instant else lane.deadline other := by
  cases other <;> simp [armRecv, deadline]

theorem next_of_armed {instant : Nat} (armed : lane.deadline kind = some instant) (other : Entry) :
    lane.next = some (lane.next.getD other) := by
  cases found : lane.next with
  | some entry => rfl
  | none =>
    rw [next_eq_none.mp found] at armed
    cases armed

/-- A cancelled deadline that was not the earliest leaves the earliest. -/
theorem next_cancel (h : lane.next = some entry) (other : entry.kind ≠ kind) :
    (lane.cancel kind).next = some entry := by
  rcases next_eq_some.mp h with ⟨armed, least⟩
  refine next_eq_some.mpr ⟨?_, ?_⟩
  · rw [deadline_cancel, if_neg other]
    exact armed
  · intro kind' instant found
    rw [deadline_cancel] at found
    split at found
    · cases found
    · exact least kind' instant found

theorem reception_cancel {recv : Reception} (h : (lane.cancel kind).reception = some recv) :
    lane.reception = some recv := by
  cases kind with
  | inbound => cases h
  | connect | send | lifetime => exact h

theorem since_le_recvSince {recv : Reception} (h : lane.reception = some recv) (now : Nat)
    (seen : Option Nat) : recv.since ≤ lane.recvSince now seen := by
  unfold recvSince
  rw [h]
  dsimp only
  cases seen with
  | none => exact Nat.le_refl _
  | some seen =>
    dsimp only
    split <;> omega

end Lane

end Dope.Manifold.Deadline
