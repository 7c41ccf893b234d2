import Mathlib.Data.List.Perm.Basic
import Mathlib.Data.List.Nodup
import Dope.Tasks.Owned

/-! # Reports

A report stands in one lane of the endpoint until it is taken, and none is lost:
when nothing can be taken, nothing has been reported.
-/

namespace Dope.Tasks

open Function

open Core.Ready.Arena (Lane)

namespace Endpoint

variable {endpoint endpoint' : Endpoint} {index : Nat} {side : Lane}

/-- Reports stand once, and a drain is paused while some stand behind the active lane. -/
structure Sound (endpoint : Endpoint) : Prop where
  nodup : endpoint.list.Nodup
  paused : endpoint.paused =
    if endpoint.lanes endpoint.active.flip = [] then none else some endpoint.active.flip

theorem new_sound : new.Sound := ⟨List.nodup_nil, rfl⟩

theorem Sound.waits (h : endpoint.Sound) (paused : endpoint.paused = some side) :
    side = endpoint.active.flip ∧ endpoint.lanes side ≠ [] := by
  rw [h.paused] at paused
  split at paused
  · cases paused
  · next waits =>
      cases paused
      exact ⟨rfl, waits⟩

theorem Sound.behind (h : endpoint.Sound) (quiet : endpoint.paused = none) :
    endpoint.lanes endpoint.active.flip = [] := by
  rw [h.paused] at quiet
  split at quiet
  · assumption
  · cases quiet

theorem mem_list : index ∈ endpoint.list ↔ ∃ side, index ∈ endpoint.lanes side := by
  unfold list
  rw [List.mem_append]
  constructor
  · rintro (first | second)
    · exact ⟨_, first⟩
    · exact ⟨_, second⟩
  · rintro ⟨side, member⟩
    cases side with
    | first => exact .inl member
    | second => exact .inr member

theorem isEmpty_iff : endpoint.isEmpty = true ↔ endpoint.list = [] := by
  simp [isEmpty, list]

theorem queued_some (found : endpoint.queued index = some side) : index ∈ endpoint.lanes side := by
  unfold queued at found
  split at found
  · next first =>
      cases found
      exact first
  · split at found
    · next second =>
        cases found
        exact second
    · cases found

theorem queued_none : endpoint.queued index = none ↔ index ∉ endpoint.list := by
  unfold queued list
  rw [List.mem_append]
  split
  · next first => simp [first]
  · next first =>
      split
      · next second => simp [second]
      · next second => simp [first, second]

theorem lanes_remove (index : Nat) (side : Lane) : (endpoint.remove index side).lanes =
    update endpoint.lanes side ((endpoint.lanes side).erase index) := by
  unfold remove
  dsimp only
  split <;> rfl

theorem remove_perm (member : index ∈ endpoint.lanes side) :
    endpoint.list.Perm (index :: (endpoint.remove index side).list) := by
  have taken := List.perm_cons_erase member
  unfold list
  rw [lanes_remove]
  cases side with
  | first =>
    rw [update_self, update_of_ne (by decide)]
    exact taken.append_right _
  | second =>
    rw [update_self, update_of_ne (by decide)]
    exact (taken.append_left _).trans List.perm_middle

theorem push_perm (index : Nat) (side : Lane) :
    (endpoint.push index side).list.Perm (index :: endpoint.list) := by
  unfold list push
  dsimp only
  cases side with
  | first =>
    rw [update_self, update_of_ne (by decide), List.append_assoc]
    exact List.perm_middle
  | second =>
    rw [update_self, update_of_ne (by decide), ← List.append_assoc]
    exact List.perm_append_singleton _ _

theorem Sound.remove (h : endpoint.Sound) (member : index ∈ endpoint.lanes side) :
    (endpoint.remove index side).Sound := by
  refine ⟨((remove_perm member).nodup_iff.mp h.nodup).of_cons, ?_⟩
  have paused := h.paused
  unfold Endpoint.remove
  dsimp only
  by_cases here : endpoint.active.flip = side
  · subst here
    rw [if_neg (List.ne_nil_of_mem member)] at paused
    by_cases drained : (endpoint.lanes endpoint.active.flip).erase index = []
    · simp [drained, paused]
    · simp [drained, paused]
  · have apart : endpoint.paused ≠ some side := by
      rw [paused]
      split <;> simp [here]
    rw [if_neg fun drained => apart drained.2]
    simpa only [update_of_ne here] using paused

theorem Sound.activate (h : endpoint.Sound) (index : Nat) :
    (endpoint.activate index).2.Sound ∧
      ((endpoint.activate index).1 = .coalesced ∧ index ∈ endpoint.list ∧
          (endpoint.activate index).2 = endpoint ∨
        (endpoint.activate index).1 = .queued ∧ index ∉ endpoint.list ∧
          (endpoint.activate index).2.list.Perm (index :: endpoint.list)) := by
  unfold Endpoint.activate
  cases found : endpoint.queued index with
  | some side => exact ⟨h, .inl ⟨rfl, mem_list.mpr ⟨side, queued_some found⟩, rfl⟩⟩
  | none =>
    have fresh := queued_none.mp found
    have pushed := endpoint.push_perm index endpoint.active
    refine ⟨⟨?_, ?_⟩, .inr ⟨rfl, fresh, pushed⟩⟩
    · rw [pushed.nodup_iff]
      exact List.nodup_cons.mpr ⟨fresh, h.nodup⟩
    · simpa only [push, update_of_ne endpoint.active.flip_ne] using h.paused

theorem Sound.leave (h : endpoint.Sound) (index : Nat) :
    (endpoint.leave index).Sound ∧
      (index ∈ endpoint.list ∧ endpoint.list.Perm (index :: (endpoint.leave index).list) ∨
        index ∉ endpoint.list ∧ endpoint.leave index = endpoint) := by
  unfold Endpoint.leave
  cases found : endpoint.queued index with
  | some side =>
    have member := queued_some found
    exact ⟨h.remove member, .inl ⟨mem_list.mpr ⟨side, member⟩, remove_perm member⟩⟩
  | none => exact ⟨h, .inr ⟨queued_none.mp found, rfl⟩⟩

/-- A drain begins with a lane that has a task, if there is a task at all. -/
theorem Sound.begin (h : endpoint.Sound) :
    endpoint.list = [] ∧ endpoint.begin = (none, endpoint) ∨
      ∃ side endpoint', endpoint.begin = (some side, endpoint') ∧ endpoint'.Sound ∧
        endpoint'.lanes = endpoint.lanes ∧ endpoint.lanes side ≠ [] := by
  unfold Endpoint.begin
  cases paused : endpoint.paused with
  | some side =>
    have waits := (h.waits paused).2
    dsimp only
    rw [if_neg waits]
    exact .inr ⟨side, endpoint, rfl, h, rfl, waits⟩
  | none =>
    have behind := h.behind paused
    unfold begin.start
    dsimp only
    by_cases empty : endpoint.lanes endpoint.active = []
    · rw [if_pos empty]
      refine .inl ⟨?_, rfl⟩
      unfold list
      cases active : endpoint.active <;> rw [active] at empty behind
      · rw [empty]
        exact behind
      · rw [empty, List.append_nil]
        exact behind
    · rw [if_neg empty]
      refine .inr ⟨_, _, rfl, ⟨h.nodup, ?_⟩, rfl, empty⟩
      dsimp only
      rw [Lane.flip_flip, if_neg empty]

theorem Sound.pop (h : endpoint.Sound) :
    endpoint.pop.2.Sound ∧
      (endpoint.pop = (none, endpoint) ∧ endpoint.list = [] ∨
        ∃ index, endpoint.pop.1 = some index ∧
          endpoint.list.Perm (index :: endpoint.pop.2.list)) := by
  unfold Endpoint.pop
  rcases h.begin with ⟨empty, run⟩ | ⟨side, begun, run, sound, lanes, waits⟩
  · rw [run]
    exact ⟨h, .inl ⟨rfl, empty⟩⟩
  · rw [run]
    dsimp only
    cases chain : begun.lanes side with
    | nil => exact absurd (lanes ▸ chain) waits
    | cons index rest =>
      have member : index ∈ begun.lanes side := by
        rw [chain]
        exact List.mem_cons_self
      refine ⟨sound.remove member, .inr ⟨index, rfl, ?_⟩⟩
      have same : endpoint.list = begun.list := by
        unfold list
        rw [lanes]
      rw [same]
      exact remove_perm member

end Endpoint

namespace Slot

variable {slot : Slot} {index : Nat}

def Sound (slot : Slot) : Prop := ∀ endpoint, slot = some endpoint → endpoint.Sound

theorem isEmpty_iff : slot.isEmpty = true ↔ slot.list = [] := by
  cases slot with
  | none => simp [isEmpty, list]
  | some endpoint => exact Endpoint.isEmpty_iff

theorem Sound.nodup (h : slot.Sound) : slot.list.Nodup := by
  cases slot with
  | none => exact List.nodup_nil
  | some endpoint => exact (h endpoint rfl).nodup

theorem Sound.pop (h : slot.Sound) :
    slot.pop.2.Sound ∧ slot.pop.2.isSome = slot.isSome ∧
      (slot.pop = (none, slot) ∧ slot.list = [] ∨
        ∃ index, slot.pop.1 = some index ∧ slot.list.Perm (index :: slot.pop.2.list)) := by
  cases slot with
  | none => exact ⟨h, rfl, .inl ⟨rfl, rfl⟩⟩
  | some endpoint =>
    rcases (h endpoint rfl).pop with ⟨sound, empty | taken⟩
    · refine ⟨?_, rfl, .inl ⟨?_, empty.2⟩⟩
      · rintro _ ⟨⟩
        exact sound
      · show (endpoint.pop.1, some endpoint.pop.2) = _
        rw [empty.1]
    · refine ⟨?_, rfl, .inr taken⟩
      rintro _ ⟨⟩
      exact sound

theorem Sound.leave (h : slot.Sound) (index : Nat) :
    Slot.Sound (slot.map fun endpoint => endpoint.leave index) ∧
      (index ∈ slot.list ∧
          slot.list.Perm (index :: Slot.list (slot.map fun endpoint => endpoint.leave index)) ∨
        index ∉ slot.list ∧ slot.map (fun endpoint => endpoint.leave index) = slot) := by
  cases slot with
  | none => exact ⟨h, .inr ⟨List.not_mem_nil, rfl⟩⟩
  | some endpoint =>
    rcases (h endpoint rfl).leave index with ⟨sound, reported | quiet⟩
    · refine ⟨?_, .inl reported⟩
      rintro _ ⟨⟩
      exact sound
    · refine ⟨?_, .inr ⟨quiet.1, congrArg some quiet.2⟩⟩
      rintro _ ⟨⟩
      exact sound

theorem Sound.tryAttach (h : slot.Sound) {room : Except Nat Unit} {slot' : Slot}
    (made : slot.tryAttach room = .ok slot') :
    slot'.Sound ∧ slot'.list = slot.list ∧ slot'.isSome := by
  unfold Slot.tryAttach at made
  cases slot with
  | some endpoint =>
    cases made
    exact ⟨h, rfl, rfl⟩
  | none =>
    cases room with
    | ok =>
      cases made
      refine ⟨?_, rfl, rfl⟩
      rintro _ ⟨⟩
      exact Endpoint.new_sound
    | error => cases made

end Slot

end Dope.Tasks
