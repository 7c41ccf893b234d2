import Mathlib.Algebra.Group.Nat.Defs
import Dope.Core.Ready.Arena.Topology
import Dope.Base.Links

/-! # Lanes of a topology

The tasks of a topology stand in its lanes in the order of two lists. The links
of a task are its neighbours there, and the root keeps the ends.
-/

namespace Dope.Core.Ready.Arena

open Function

variable {G : Type}

/-! ## Cells -/

namespace Cell

variable (cell : Cell G)

theorem setLink_link {link : Link} (fits : link.Fits) : (cell.setLink link).link = link :=
  Link.fromWord_word fits

theorem setLinks_same {side : Lane} {links : Link} (fits : links.Fits) :
    (cell.setLinks side links).links side = links := by
  cases side with
  | first | second => exact Link.fromWord_word fits

theorem setLinks_other {side side' : Lane} {links : Link} (apart : side' ≠ side) :
    (cell.setLinks side links).links side' = cell.links side' := by
  cases side <;> cases side' <;> first | rfl | exact absurd rfl apart

@[simp] theorem setLinks_state (side : Lane) (links : Link) :
    (cell.setLinks side links).state = cell.state := by cases side <;> rfl

@[simp] theorem setLinks_queue (side : Lane) (links : Link) :
    (cell.setLinks side links).queue = cell.queue := by cases side <;> rfl

@[simp] theorem setLinks_kind (side : Lane) (links : Link) :
    (cell.setLinks side links).kind = cell.kind := by cases side <;> rfl

@[simp] theorem setLinks_generation (side : Lane) (links : Link) :
    (cell.setLinks side links).generation = cell.generation := by cases side <;> rfl

@[simp] theorem setState_links (state : State) (side : Lane) :
    (cell.setState state).links side = cell.links side := by cases side <;> rfl

end Cell

@[simp] theorem Slots.modify_self (slots : Slots G) (index : Nat) (edit : Cell G → Cell G) :
    slots.modify index edit index = edit (slots index) := update_self ..

theorem Slots.modify_other (slots : Slots G) {index index' : Nat} (edit : Cell G → Cell G)
    (apart : index' ≠ index) : slots.modify index edit index' = slots index' :=
  update_of_ne apart ..

/-! ## Representation -/

open Links

/-- The lanes of the root, over the indices of its tasks. -/
structure Lanes (slots : Slots G) (root : Nat) (mine : List Nat) (lanes : Lane → List Nat) :
    Prop where
  ends : ∀ side, (slots root).links side = ⟨(lanes side).head?, (lanes side).getLast?⟩
  nodup : ∀ side, (lanes side).Nodup
  link : ∀ side, ∀ x ∈ lanes side,
    (slots x).link = ⟨after x (lanes side), before x (lanes side)⟩
  member : ∀ side x, x ∈ lanes side ↔ x ∈ mine ∧ (slots x).queue = some side

/-- A paused lane has tasks and is not the active one. When none is paused, only
the active lane has tasks. -/
def Phased (state : State) (lanes : Lane → List Nat) : Prop :=
  match state.view.paused with
  | some side => lanes side ≠ [] ∧ side ≠ state.view.active
  | none => lanes state.view.active.flip = []

/-- Only the paused and the active lane of a state matter. -/
theorem Phased.of_view {state state' : State} {lanes : Lane → List Nat} (h : Phased state lanes)
    (paused : state'.view.paused = state.view.paused)
    (active : state'.view.active = state.view.active) : Phased state' lanes := by
  unfold Phased at h ⊢
  rw [paused, active]
  exact h

namespace Lanes

variable {slots slots' : Slots G} {root : Nat} {mine : List Nat} {lanes : Lane → List Nat}

theorem congr (h : Lanes slots root mine lanes)
    (ends : ∀ side, (slots' root).links side = (slots root).links side)
    (tasks : ∀ x ∈ mine, (slots' x).link = (slots x).link ∧ (slots' x).queue = (slots x).queue) :
    Lanes slots' root mine lanes where
  ends side := (ends side).trans (h.ends side)
  nodup := h.nodup
  link side x mem := (tasks x ((h.member side x).mp mem).1).1.trans (h.link side x mem)
  member := by
    intro side x
    rw [h.member]
    constructor
    · rintro ⟨here, queue⟩
      exact ⟨here, (tasks x here).2.trans queue⟩
    · rintro ⟨here, queue⟩
      exact ⟨here, (tasks x here).2.symm.trans queue⟩

theorem subset (h : Lanes slots root mine lanes) {side : Lane} {x : Nat} (mem : x ∈ lanes side) :
    x ∈ mine := ((h.member side x).mp mem).1

theorem apart (h : Lanes slots root mine lanes) {side side' : Lane} {x : Nat}
    (mem : x ∈ lanes side) (mem' : x ∈ lanes side') : side' = side := by
  have queue := ((h.member side x).mp mem).2
  rw [((h.member side' x).mp mem').2] at queue
  exact Option.some.inj queue

end Lanes

namespace Topology

variable {slots : Slots G} {root index : Nat} {mine : List Nat} {lanes : Lane → List Nat}
  {side : Lane}

/-! ## Push -/

section

variable (h : Lanes slots root mine lanes) (out : root ∉ mine) (task : index ∈ mine)
  (vacant : (slots index).queue = none)

include h out task vacant

theorem push_apply (j : Nat) :
    push slots root index side j =
      if j = root then
        (slots j).setLinks side
          ⟨some ((lanes side).head?.getD index), some index⟩
      else if j = index then
        ((slots j).setLink ⟨none, (lanes side).getLast?⟩).setQueue (some side)
      else if (lanes side).getLast? = some j then
        (slots j).setLink { (slots j).link with next := some index }
      else slots j := by
  have away : index ≠ root := fun same => out (same ▸ task)
  have fresh : index ∉ lanes side := by
    intro mem
    rw [((h.member side index).mp mem).2] at vacant
    cases vacant
  unfold push
  rw [h.ends side]
  dsimp only
  cases last : (lanes side).getLast? with
  | none =>
    have empty := List.getLast?_eq_none_iff.mp last
    rw [empty]
    dsimp only
    by_cases here : j = root
    · subst here
      rw [if_pos rfl, Slots.modify_other _ _ away.symm, Slots.modify_self,
        Slots.modify_other _ _ away.symm]
      rfl
    · rw [if_neg here]
      by_cases mine' : j = index
      · subst mine'
        rw [if_pos rfl, Slots.modify_self, Slots.modify_other _ _ here, Slots.modify_self]
      · rw [if_neg mine', if_neg (nomatch ·), Slots.modify_other _ _ mine',
          Slots.modify_other _ _ here, Slots.modify_other _ _ mine']
  | some prev =>
    have mem := List.mem_of_getLast? last
    have prevRoot : prev ≠ root := fun same => out (same ▸ h.subset mem)
    have prevIndex : prev ≠ index := fun same => fresh (same ▸ mem)
    have head : ∃ first, (lanes side).head? = some first := by
      cases list : lanes side with
      | nil => rw [list] at mem; cases mem
      | cons first rest => exact ⟨first, rfl⟩
    rcases head with ⟨first, head⟩
    rw [head]
    dsimp only
    by_cases here : j = root
    · subst here
      rw [if_pos rfl, Slots.modify_other _ _ away.symm, Slots.modify_self,
        Slots.modify_other _ _ prevRoot.symm, Slots.modify_other _ _ away.symm]
      rfl
    · rw [if_neg here]
      by_cases mine' : j = index
      · subst mine'
        rw [if_pos rfl, Slots.modify_self, Slots.modify_other _ _ here,
          Slots.modify_other _ _ prevIndex.symm, Slots.modify_self]
      · rw [if_neg mine', Slots.modify_other _ _ mine', Slots.modify_other _ _ here]
        by_cases tail : j = prev
        · subst tail
          rw [if_pos rfl, Slots.modify_self, Slots.modify_other _ _ mine']
        · rw [if_neg (fun same => tail (Option.some.inj same).symm),
            Slots.modify_other _ _ tail, Slots.modify_other _ _ mine']

theorem push_queue (j : Nat) :
    (push slots root index side j).queue =
      if j = index then some side else (slots j).queue := by
  have away : index ≠ root := fun same => out (same ▸ task)
  rw [push_apply h out task vacant]
  by_cases here : j = root
  · rw [if_pos here, if_neg (fun same => away (same.symm.trans here)), Cell.setLinks_queue]
  · rw [if_neg here]
    by_cases mine' : j = index
    · rw [if_pos mine', if_pos mine']
      rfl
    · rw [if_neg mine', if_neg mine']
      split <;> rfl

theorem push_link (small : ∀ x ∈ mine, x + 1 < 2 ^ 16) {j : Nat} (here : j ∈ mine) :
    (push slots root index side j).link =
      if j = index then ⟨none, (lanes side).getLast?⟩
      else if (lanes side).getLast? = some j then { (slots j).link with next := some index }
      else (slots j).link := by
  have away : j ≠ root := fun same => out (same ▸ here)
  have fits : ∀ x, (lanes side).getLast? = some x → x + 1 < 2 ^ 16 := fun x last =>
    small x (h.subset (List.mem_of_getLast? last))
  rw [push_apply h out task vacant, if_neg away]
  by_cases mine' : j = index
  · rw [if_pos mine', if_pos mine']
    exact Cell.setLink_link (slots j) ⟨(fun _ no => nomatch no), fits⟩
  · rw [if_neg mine', if_neg mine']
    by_cases tail : (lanes side).getLast? = some j
    · rw [if_pos tail, if_pos tail]
      refine Cell.setLink_link _ ⟨?_, ?_⟩
      · intro x same
        cases same
        exact small index task
      · intro x same
        rw [h.link side j (List.mem_of_getLast? tail)] at same
        exact small x (h.subset (before_mem same))
    · rw [if_neg tail, if_neg tail]

theorem push_lanes (small : ∀ x ∈ mine, x + 1 < 2 ^ 16) :
    Lanes (push slots root index side) root mine
      (update lanes side (lanes side ++ [index])) := by
  have free : ∀ side', index ∉ lanes side' := by
    intro side' mem
    rw [((h.member side' index).mp mem).2] at vacant
    cases vacant
  refine ⟨?_, ?_, ?_, ?_⟩
  · intro side'
    rw [push_apply h out task vacant, if_pos rfl]
    by_cases same : side' = side
    · subst same
      rw [update_self]
      rw [Cell.setLinks_same]
      · congr 1
        · cases lanes side' <;> rfl
        · exact List.getLast?_concat.symm
      · refine ⟨?_, ?_⟩
        · intro x first
          cases list : lanes side' with
          | nil =>
            rw [list] at first
            cases first
            exact small index task
          | cons y rest =>
            rw [list] at first
            cases first
            exact small y (h.subset (list ▸ List.mem_cons_self))
        · intro x last
          cases last
          exact small index task
    · rw [update_of_ne same, Cell.setLinks_other _ same]
      exact h.ends side'
  · intro side'
    by_cases same : side' = side
    · subst same
      rw [update_self, ← List.concat_eq_append]
      exact (h.nodup side').concat (free side')
    · rw [update_of_ne same]
      exact h.nodup side'
  · intro side' x mem
    by_cases same : side' = side
    · subst same
      rw [update_self] at mem ⊢
      rcases List.mem_append.mp mem with old | new
      · have other : x ≠ index := fun equal => free side' (equal ▸ old)
        rw [push_link h out task vacant small (h.subset old), if_neg other,
          after_append (h.nodup side') old, before_append other, h.link side' x old]
        split <;> rfl
      · have equal := List.mem_singleton.mp new
        subst equal
        rw [push_link h out task vacant small task, if_pos rfl, after_last (free side'),
          before_last (free side')]
    · rw [update_of_ne same] at mem ⊢
      have other : x ≠ index := fun equal => free side' (equal ▸ mem)
      have tail : (lanes side).getLast? ≠ some x := fun last =>
        same (h.apart (List.mem_of_getLast? last) mem)
      rw [push_link h out task vacant small (h.subset mem), if_neg other, if_neg tail]
      exact h.link side' x mem
  · intro side' x
    rw [push_queue h out task vacant]
    by_cases equal : x = index
    · subst equal
      rw [if_pos rfl]
      by_cases same : side' = side
      · subst same
        rw [update_self]
        exact iff_of_true (List.mem_append.mpr (.inr List.mem_cons_self)) ⟨task, rfl⟩
      · rw [update_of_ne same]
        exact iff_of_false (free side') (fun both => same (Option.some.inj both.2).symm)
    · rw [if_neg equal]
      by_cases same : side' = side
      · subst same
        rw [update_self, List.mem_append, List.mem_singleton, ← h.member]
        simp [equal]
      · rw [update_of_ne same]
        exact h.member side' x

/-! ## Removal -/

end

/-- The ends of a lane without the task. -/
def endsWithout (index : Nat) (xs : List Nat) : Link where
  next := if before index xs = none then after index xs else xs.head?
  prev := if after index xs = none then before index xs else xs.getLast?

/-- The state of the root after a task has left the lane. -/
def removedState (state : State) (side : Lane) (next : Option Nat) : State :=
  if next.isNone ∧ state.paused = some side then state.setPaused none else state

/-- A slot of a lane is edited, if there is one. -/
def modifySome (slots : Slots G) (neighbour : Option Nat) (edit : Cell G → Cell G) : Slots G :=
  match neighbour with
  | some j => slots.modify j edit
  | none => slots

theorem modifySome_apply (slots : Slots G) (neighbour : Option Nat) (edit : Cell G → Cell G)
    (j : Nat) : modifySome slots neighbour edit j =
      if neighbour = some j then edit (slots j) else slots j := by
  cases neighbour with
  | none => rfl
  | some i =>
    by_cases same : i = j
    · subst same
      rw [if_pos rfl]
      exact Slots.modify_self ..
    · rw [if_neg (fun equal => same (Option.some.inj equal))]
      exact Slots.modify_other _ _ (Ne.symm same)

theorem settle_eq (slots : Slots G) (next : Option Nat) :
    (if next.isNone ∧ (state slots root).paused = some side then
      setState slots root ((state slots root).setPaused none) else slots) =
      slots.modify root fun cell => cell.setState (removedState cell.state side next) := by
  unfold removedState setState Slots.modify state
  dsimp only
  split
  · rfl
  · exact (update_eq_self root slots).symm

/-- A removal edits both neighbours, the root and the task. -/
theorem remove_eq (h : Lanes slots root mine lanes) (mem : index ∈ lanes side) :
    remove slots root index side =
      let prev := before index (lanes side)
      let next := after index (lanes side)
      let slots := modifySome slots prev fun cell => cell.setLink { cell.link with next }
      let slots := modifySome slots next fun cell => cell.setLink { cell.link with prev }
      let slots := slots.modify root (·.setLinks side (endsWithout index (lanes side)))
      let slots := slots.modify index (·.setQueue none)
      slots.modify root fun cell => cell.setState
        (removedState cell.state side (endsWithout index (lanes side)).next) := by
  unfold remove endsWithout modifySome
  rw [h.link side index mem, h.ends side]
  dsimp only
  cases before index (lanes side) <;> cases after index (lanes side) <;> exact settle_eq _ _

theorem remove_apply (h : Lanes slots root mine lanes) (out : root ∉ mine)
    (mem : index ∈ lanes side) (j : Nat) :
    remove slots root index side j =
      if j = root then
        ((slots j).setLinks side (endsWithout index (lanes side))).setState
          (removedState (slots j).state side (endsWithout index (lanes side)).next)
      else if j = index then (slots j).setQueue none
      else if before index (lanes side) = some j then
        (slots j).setLink { (slots j).link with next := after index (lanes side) }
      else if after index (lanes side) = some j then
        (slots j).setLink { (slots j).link with prev := before index (lanes side) }
      else slots j := by
  have nodup := h.nodup side
  have away : index ≠ root := fun same => out (same ▸ h.subset mem)
  have prevAway : ∀ p, before index (lanes side) = some p → p ≠ root ∧ p ≠ index := fun p found =>
    ⟨fun same => out (same ▸ h.subset (before_mem found)), before_ne nodup found⟩
  have nextAway : ∀ n, after index (lanes side) = some n → n ≠ root ∧ n ≠ index := fun n found =>
    ⟨fun same => out (same ▸ h.subset (after_mem found)), after_ne nodup found⟩
  rw [remove_eq h mem]
  dsimp only
  by_cases here : j = root
  · subst here
    have noPrev : before index (lanes side) ≠ some j := fun found => (prevAway j found).1 rfl
    have noNext : after index (lanes side) ≠ some j := fun found => (nextAway j found).1 rfl
    rw [if_pos rfl, Slots.modify_self, Slots.modify_other _ _ away.symm, Slots.modify_self,
      modifySome_apply, if_neg noNext, modifySome_apply, if_neg noPrev, Cell.setLinks_state]
  · rw [if_neg here, Slots.modify_other _ _ here]
    by_cases task : j = index
    · subst task
      have noPrev : before j (lanes side) ≠ some j := fun found => (prevAway j found).2 rfl
      have noNext : after j (lanes side) ≠ some j := fun found => (nextAway j found).2 rfl
      rw [if_pos rfl, Slots.modify_self, Slots.modify_other _ _ here, modifySome_apply,
        if_neg noNext, modifySome_apply, if_neg noPrev]
    · rw [if_neg task, Slots.modify_other _ _ task, Slots.modify_other _ _ here, modifySome_apply,
        modifySome_apply]
      by_cases prev : before index (lanes side) = some j
      · have noNext : after index (lanes side) ≠ some j := fun found =>
          before_ne_after nodup prev found rfl
        rw [if_neg noNext, if_pos prev, if_pos prev]
      · rw [if_neg prev, if_neg prev]

theorem endsWithout_eq (nodup : (lanes side).Nodup) (mem : index ∈ lanes side) :
    endsWithout index (lanes side) =
      ⟨((lanes side).erase index).head?, ((lanes side).erase index).getLast?⟩ := by
  unfold endsWithout
  rw [head?_erase nodup mem, getLast?_erase nodup mem]

section

variable (h : Lanes slots root mine lanes) (out : root ∉ mine) (mem : index ∈ lanes side)

include h out mem

theorem remove_queue (j : Nat) :
    (remove slots root index side j).queue = if j = index then none else (slots j).queue := by
  have away : index ≠ root := fun same => out (same ▸ h.subset mem)
  rw [remove_apply h out mem]
  by_cases here : j = root
  · rw [if_pos here, if_neg (fun same => away (same.symm.trans here))]
    exact Cell.setLinks_queue ..
  · rw [if_neg here]
    by_cases task : j = index
    · rw [if_pos task, if_pos task]
      rfl
    · rw [if_neg task, if_neg task]
      split
      · rfl
      · split <;> rfl

theorem remove_link (small : ∀ x ∈ mine, x + 1 < 2 ^ 16) {side' : Lane} {j : Nat}
    (here : j ∈ lanes side') (apart : j ≠ index) :
    (remove slots root index side j).link =
      ⟨if before index (lanes side) = some j then after index (lanes side)
          else after j (lanes side'),
        if after index (lanes side) = some j then before index (lanes side)
          else before j (lanes side')⟩ := by
  have away : j ≠ root := fun same => out (same ▸ h.subset here)
  have fits : ∀ side x y, after x (lanes side) = some y → y + 1 < 2 ^ 16 := fun side x y found =>
    small y (h.subset (after_mem found))
  have fits' : ∀ side x y, before x (lanes side) = some y → y + 1 < 2 ^ 16 := fun side x y found =>
    small y (h.subset (before_mem found))
  rw [remove_apply h out mem, if_neg away, if_neg apart]
  by_cases prev : before index (lanes side) = some j
  · have noNext : after index (lanes side) ≠ some j := fun found =>
      before_ne_after (h.nodup side) prev found rfl
    rw [if_pos prev, if_pos prev, if_neg noNext, Cell.setLink_link]
    · rw [h.link side' j here]
    · refine ⟨fits side index, ?_⟩
      rw [h.link side' j here]
      exact fits' side' j
  · rw [if_neg prev, if_neg prev]
    by_cases next : after index (lanes side) = some j
    · rw [if_pos next, if_pos next, Cell.setLink_link]
      · rw [h.link side' j here]
      · refine ⟨?_, fits' side index⟩
        rw [h.link side' j here]
        exact fits side' j
    · rw [if_neg next, if_neg next]
      exact h.link side' j here

theorem remove_lanes (small : ∀ x ∈ mine, x + 1 < 2 ^ 16) :
    Lanes (remove slots root index side) root mine
      (update lanes side ((lanes side).erase index)) := by
  have nodup := h.nodup side
  refine ⟨?_, ?_, ?_, ?_⟩
  · intro side'
    rw [remove_apply h out mem, if_pos rfl, Cell.setState_links]
    by_cases same : side' = side
    · subst same
      rw [update_self, endsWithout_eq nodup mem, Cell.setLinks_same]
      refine ⟨?_, ?_⟩
      · intro x first
        exact small x (h.subset (List.mem_of_mem_erase (List.mem_of_mem_head? first)))
      · intro x last
        exact small x (h.subset (List.mem_of_mem_erase (List.mem_of_getLast? last)))
    · rw [update_of_ne same, Cell.setLinks_other _ same]
      exact h.ends side'
  · intro side'
    by_cases same : side' = side
    · subst same
      rw [update_self]
      exact nodup.erase index
    · rw [update_of_ne same]
      exact h.nodup side'
  · intro side' x here
    by_cases same : side' = side
    · subst same
      rw [update_self] at here ⊢
      rcases nodup.mem_erase_iff.mp here with ⟨apart, old⟩
      rw [remove_link h out mem small old apart, after_erase nodup mem apart,
        before_erase nodup mem apart]
    · rw [update_of_ne same] at here ⊢
      have apart : x ≠ index := fun equal => same (h.apart mem (equal ▸ here))
      have noPrev : before index (lanes side) ≠ some x := fun found =>
        same (h.apart (before_mem found) here)
      have noNext : after index (lanes side) ≠ some x := fun found =>
        same (h.apart (after_mem found) here)
      rw [remove_link h out mem small here apart, if_neg noPrev, if_neg noNext]
  · intro side' x
    rw [remove_queue h out mem]
    by_cases equal : x = index
    · subst equal
      rw [if_pos rfl]
      refine iff_of_false ?_ (fun both => nomatch both.2)
      by_cases same : side' = side
      · subst same
        rw [update_self]
        exact fun again => (nodup.mem_erase_iff.mp again).1 rfl
      · rw [update_of_ne same]
        exact fun there => same (h.apart mem there)
    · rw [if_neg equal, ← h.member]
      by_cases same : side' = side
      · subst same
        rw [update_self, List.mem_erase_of_ne equal]
      · rw [update_of_ne same]

end

end Topology

end Dope.Core.Ready.Arena
