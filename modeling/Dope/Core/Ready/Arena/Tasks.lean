import Mathlib.Algebra.Group.Nat.Defs
import Dope.Core.Ready.Arena.Owners

/-! # Tasks of a topology

What a root says of its tasks: how many are attached, which lane is drained, and
whether it is closed. Every operation of a topology keeps this, and the lanes stay
in the order of the activations.
-/

namespace Dope.Core.Ready.Arena

open Links Function

variable {G : Type} {j : Nat}

namespace Topology

variable {slots : Slots G} {root index : Nat} {mine : List Nat} {lanes : Lane → List Nat}
  {side : Lane}

/-! ## What is left alone -/

theorem push_other (h : Lanes slots root mine lanes) (out : root ∉ mine) (task : index ∈ mine)
    (vacant : (slots index).queue = none) (away : j ≠ root) (apart : j ∉ mine) :
    push slots root index side j = slots j := by
  have other : j ≠ index := fun same => apart (same ▸ task)
  rw [push_apply h out task vacant, if_neg away, if_neg other,
    if_neg (fun last => apart (h.subset (List.mem_of_getLast? last)))]

theorem push_state (h : Lanes slots root mine lanes) (out : root ∉ mine) (task : index ∈ mine)
    (vacant : (slots index).queue = none) :
    (push slots root index side root).state = (slots root).state := by
  rw [push_apply h out task vacant, if_pos rfl, Cell.setLinks_state]

theorem push_kept (h : Lanes slots root mine lanes) (out : root ∉ mine) (task : index ∈ mine)
    (vacant : (slots index).queue = none) (j : Nat) :
    (push slots root index side j).kind = (slots j).kind ∧
      (push slots root index side j).generation = (slots j).generation := by
  rw [push_apply h out task vacant]
  split
  · exact ⟨Cell.setLinks_kind .., Cell.setLinks_generation ..⟩
  · split
    · exact ⟨rfl, rfl⟩
    · split <;> exact ⟨rfl, rfl⟩

section

variable (h : Lanes slots root mine lanes) (out : root ∉ mine)

include h out

theorem push_words (task : index ∈ mine) (vacant : (slots index).queue = none) (away : j ≠ root) :
    (push slots root index side j).word0 = (slots j).word0 ∧
      (push slots root index side j).word1 = (slots j).word1 := by
  rw [push_apply h out task vacant, if_neg away]
  split
  · exact ⟨rfl, rfl⟩
  · split <;> exact ⟨rfl, rfl⟩

theorem remove_other (mem : index ∈ lanes side) (away : j ≠ root) (apart : j ∉ mine) :
    remove slots root index side j = slots j := by
  have other : j ≠ index := fun same => apart (same ▸ h.subset mem)
  rw [remove_apply h out mem, if_neg away, if_neg other,
    if_neg (fun found => apart (h.subset (before_mem found))),
    if_neg (fun found => apart (h.subset (after_mem found)))]

theorem remove_state (mem : index ∈ lanes side) :
    (remove slots root index side root).state =
      removedState (slots root).state side ((lanes side).erase index).head? := by
  rw [remove_apply h out mem, if_pos rfl, endsWithout_eq (h.nodup side) mem]
  rfl

theorem remove_kept (mem : index ∈ lanes side) (j : Nat) :
    (remove slots root index side j).kind = (slots j).kind ∧
      (remove slots root index side j).generation = (slots j).generation := by
  rw [remove_apply h out mem]
  split
  · exact ⟨Cell.setLinks_kind .., Cell.setLinks_generation ..⟩
  · split
    · exact ⟨rfl, rfl⟩
    · split
      · exact ⟨rfl, rfl⟩
      · split <;> exact ⟨rfl, rfl⟩

theorem remove_words (mem : index ∈ lanes side) (away : j ≠ root) :
    (remove slots root index side j).word0 = (slots j).word0 ∧
      (remove slots root index side j).word1 = (slots j).word1 := by
  rw [remove_apply h out mem, if_neg away]
  split
  · exact ⟨rfl, rfl⟩
  · split
    · exact ⟨rfl, rfl⟩
    · split <;> exact ⟨rfl, rfl⟩

end

end Topology

/-! ## Roots -/

/-- A root over its tasks and its lanes. -/
structure Rooted (slots : Slots G) (root : Nat) (mine : List Nat) (closed : Bool)
    (lanes : Lane → List Nat) (stamps : Nat → Nat) (clock : Nat) : Prop where
  listed : Lanes slots root mine lanes
  phased : Phased (slots root).state lanes
  count : (slots root).state.view.count = mine.length
  shut : (slots root).state.view.closed = closed
  held : closed = true → mine ≠ []
  order : ∀ side, (lanes side).Pairwise fun x y => stamps x < stamps y
  past : ∀ side, ∀ x ∈ lanes side, stamps x < clock

namespace Rooted

variable {slots slots' : Slots G} {root index : Nat} {mine : List Nat} {closed : Bool}
  {lanes : Lane → List Nat} {stamps stamps' : Nat → Nat} {clock clock' : Nat} {side : Lane}

theorem congr (h : Rooted slots root mine closed lanes stamps clock)
    (self : slots' root = slots root) (tasks : ∀ x ∈ mine, slots' x = slots x)
    (times : ∀ x ∈ mine, stamps' x = stamps x) (later : clock ≤ clock') :
    Rooted slots' root mine closed lanes stamps' clock' where
  listed := h.listed.congr (fun side => by rw [self])
    (fun x mem => by rw [tasks x mem]; exact ⟨rfl, rfl⟩)
  phased := by
    rw [self]
    exact h.phased
  count := by
    rw [self]
    exact h.count
  shut := by
    rw [self]
    exact h.shut
  held := h.held
  order := by
    intro side
    refine (h.order side).imp_of_mem ?_
    intro x y mem mem' before
    rw [times x (h.listed.subset mem), times y (h.listed.subset mem')]
    exact before
  past := by
    intro side x mem
    rw [times x (h.listed.subset mem)]
    exact Nat.lt_of_lt_of_le (h.past side x mem) later

theorem active_eq (state : State) : state.view.active = state.active := rfl

theorem push (h : Rooted slots root mine closed lanes stamps clock) (out : root ∉ mine)
    (task : index ∈ mine) (vacant : (slots index).queue = none)
    (small : ∀ x ∈ mine, x + 1 < 2 ^ 16) (active : (slots root).state.active = side) :
    Rooted (Topology.push slots root index side) root mine closed
      (update lanes side (lanes side ++ [index]))
      (update stamps index clock) (clock + 1) := by
  have state := @Topology.push_state _ slots root index mine lanes side h.listed out task vacant
  have free : ∀ side', index ∉ lanes side' := by
    intro side' mem
    rw [((h.listed.member side' index).mp mem).2] at vacant
    cases vacant
  have old : ∀ side', ∀ x ∈ lanes side', update stamps index clock x = stamps x := by
    intro side' x mem
    have apart : x ≠ index := fun same => free side' (same ▸ mem)
    exact update_of_ne apart ..
  refine ⟨Topology.push_lanes h.listed out task vacant small, ?_, ?_, ?_, h.held, ?_, ?_⟩
  · have phased := h.phased
    unfold Phased at phased ⊢
    rw [state]
    rw [active_eq, active] at phased ⊢
    split at phased
    · rw [update_of_ne phased.2]
      exact phased
    · rw [update_of_ne side.flip_ne]
      exact phased
  · rw [state]
    exact h.count
  · rw [state]
    exact h.shut
  · intro side'
    have before : (lanes side').Pairwise fun x y =>
        update stamps index clock x < update stamps index clock y := by
      refine (h.order side').imp_of_mem ?_
      intro x y mem mem' less
      rw [old side' x mem, old side' y mem']
      exact less
    by_cases same : side' = side
    · subst same
      rw [update_self]
      refine List.pairwise_append.mpr ⟨before, List.pairwise_singleton .., ?_⟩
      intro x mem y last
      rw [List.mem_singleton.mp last, old side' x mem, update_self]
      exact h.past side' x mem
    · rw [update_of_ne same]
      exact before
  · intro side' x mem
    have bound : ∀ y ∈ lanes side', update stamps index clock y < clock + 1 := by
      intro y here
      rw [old side' y here]
      exact Nat.lt_succ_of_lt (h.past side' y here)
    by_cases same : side' = side
    · subst same
      rw [update_self] at mem
      rcases List.mem_append.mp mem with here | last
      · exact bound x here
      · rw [List.mem_singleton.mp last, update_self]
        exact Nat.lt_succ_self clock
    · rw [update_of_ne same] at mem
      exact bound x mem

section

variable (h : Rooted slots root mine closed lanes stamps clock)

include h

theorem remove (out : root ∉ mine) (mem : index ∈ lanes side) (small : ∀ x ∈ mine, x + 1 < 2 ^ 16) :
    Rooted (Topology.remove slots root index side) root mine closed
      (update lanes side ((lanes side).erase index)) stamps clock := by
  have state := Topology.remove_state h.listed out mem
  have view : (Topology.remove slots root index side root).state.view =
      { (slots root).state.view with
        paused := if (lanes side).erase index = [] ∧ (slots root).state.view.paused = some side
          then none else (slots root).state.view.paused } := by
    rw [state]
    unfold Topology.removedState
    have none : ((lanes side).erase index).head?.isNone = true ↔ (lanes side).erase index = [] := by
      cases (lanes side).erase index <;> simp
    show _ = { (slots root).state.view with
      paused := if (lanes side).erase index = [] ∧ (slots root).state.paused = some side
        then Option.none else (slots root).state.view.paused }
    by_cases last : (lanes side).erase index = [] ∧ (slots root).state.paused = some side
    · rw [if_pos ⟨none.mpr last.1, last.2⟩, if_pos last]
      exact State.setPaused_view ..
    · rw [if_neg (fun both => last ⟨none.mp both.1, both.2⟩), if_neg last]
  have sub : ∀ side', (update lanes side ((lanes side).erase index) side').Sublist
      (lanes side') := by
    intro side'
    by_cases same : side' = side
    · subst same
      rw [update_self]
      exact List.erase_sublist
    · rw [update_of_ne same]
  refine ⟨Topology.remove_lanes h.listed out mem small, ?_, ?_, ?_, h.held, ?_, ?_⟩
  · have phased := h.phased
    unfold Phased at phased ⊢
    rw [view]
    dsimp only
    cases paused : (slots root).state.view.paused with
    | none =>
      rw [paused] at phased
      rw [if_neg (fun both => nomatch both.2)]
      have other : (slots root).state.view.active.flip ≠ side := by
        intro same
        rw [← same] at mem
        rw [phased] at mem
        cases mem
      rw [update_of_ne other]
      exact phased
    | some drained =>
      rw [paused] at phased
      dsimp only at phased
      by_cases last : (lanes side).erase index = [] ∧ some drained = some side
      · rw [if_pos last]
        have same : drained = side := Option.some.inj last.2
        have flipped := Lane.eq_flip phased.2
        rw [← flipped, same, update_self]
        exact last.1
      · rw [if_neg last]
        refine ⟨?_, phased.2⟩
        by_cases same : drained = side
        · subst same
          rw [update_self]
          exact fun empty => last ⟨empty, rfl⟩
        · rw [update_of_ne same]
          exact phased.1
  · rw [view]
    exact h.count
  · rw [view]
    exact h.shut
  · exact fun side' => (h.order side').sublist (sub side')
  · exact fun side' x here => h.past side' x ((sub side').subset here)

/-- The root says something else, or has other tasks, and the lanes stay. -/
theorem rebase {mine' : List Nat} {closed' : Bool}
    (ends : ∀ side, (slots' root).links side = (slots root).links side)
    (kept : ∀ x ∈ mine, x ∈ mine' → slots' x = slots x)
    (gone : ∀ x ∈ mine, x ∉ mine' → (slots x).queue = none)
    (come : ∀ x ∈ mine', x ∉ mine → (slots' x).queue = none)
    (phased : Phased (slots' root).state lanes)
    (count : (slots' root).state.view.count = mine'.length)
    (shut : (slots' root).state.view.closed = closed') (held : closed' = true → mine' ≠ []) :
    Rooted slots' root mine' closed' lanes stamps clock := by
  have stay : ∀ side, ∀ x ∈ lanes side, x ∈ mine ∧ x ∈ mine' ∧ (slots x).queue = some side := by
    intro side x mem
    rcases (h.listed.member side x).mp mem with ⟨here, queue⟩
    refine ⟨here, ?_, queue⟩
    by_contra out
    rw [gone x here out] at queue
    cases queue
  refine ⟨⟨?_, h.listed.nodup, ?_, ?_⟩, phased, count, shut, held, h.order, h.past⟩
  · intro side
    rw [ends]
    exact h.listed.ends side
  · intro side x mem
    rcases stay side x mem with ⟨here, here', -⟩
    rw [kept x here here']
    exact h.listed.link side x mem
  · intro side x
    constructor
    · intro mem
      rcases stay side x mem with ⟨here, here', queue⟩
      rw [kept x here here']
      exact ⟨here', queue⟩
    · rintro ⟨here', queue⟩
      have here : x ∈ mine := by
        by_contra out
        rw [come x here' out] at queue
        cases queue
      rw [kept x here here'] at queue
      exact (h.listed.member side x).mpr ⟨here, queue⟩

theorem restate (out : root ∉ mine) {state : State} {closed' : Bool} (phased : Phased state lanes)
    (count : state.view.count = (slots root).state.view.count) (shut : state.view.closed = closed')
    (held : closed' = true → mine ≠ []) :
    Rooted (Topology.setState slots root state) root mine closed' lanes stamps clock := by
  have self : Topology.setState slots root state root = (slots root).setState state :=
    Slots.modify_self ..
  have other : ∀ x ∈ mine, Topology.setState slots root state x = slots x := by
    intro x mem
    have apart : x ≠ root := fun same => out (same ▸ mem)
    exact Slots.modify_other _ _ apart
  refine h.rebase ?_ (fun x mem _ => other x mem) (fun x mem out => absurd mem out)
    (fun x mem out => absurd mem out) ?_ ?_ ?_ held
  · intro side
    rw [self, Cell.setState_links]
  · rw [self]
    exact phased
  · rw [self]
    exact count.trans h.count
  · rw [self]
    exact shut

end

/-- The lane that a drain takes next. -/
def due (state : State) : Lane := state.view.paused.getD state.view.active

theorem head_eq (h : Rooted slots root mine closed lanes stamps clock) (side : Lane) :
    Topology.head slots root side = (lanes side).head? := by
  unfold Topology.head
  rw [h.listed.ends side]

theorem paused_eq (state : State) : state.paused = state.view.paused := rfl

theorem draining_eq (state : State) : state.draining = state.view.draining := rfl

section

variable (h : Rooted slots root mine closed lanes stamps clock)

include h

/-- A drain begins on the due lane, unless one is under way or nothing waits. -/
theorem begin_spec (out : root ∉ mine) :
    (Topology.begin slots root = (none, slots) ∧
      ((slots root).state.view.draining = true ∨ lanes (due (slots root).state) = [])) ∨
    ∃ state : State, Topology.begin slots root =
        (some (due (slots root).state), Topology.setState slots root state) ∧
      (slots root).state.view.draining = false ∧ lanes (due (slots root).state) ≠ [] ∧
      state.view.draining = true ∧ state.view.active = (due (slots root).state).flip ∧
      due state = due (slots root).state ∧
      Rooted (Topology.setState slots root state) root mine closed lanes stamps clock := by
  have phased := h.phased
  unfold Phased at phased
  unfold Topology.begin Topology.state
  dsimp only
  rw [draining_eq, paused_eq]
  cases draining : (slots root).state.view.draining with
  | true => exact .inl ⟨by rw [if_pos rfl], .inl rfl⟩
  | false =>
    rw [if_neg (by decide)]
    cases paused : (slots root).state.view.paused with
    | some side =>
      rw [paused] at phased
      have due_ : due (slots root).state = side := by
        unfold due
        rw [paused]
        rfl
      have some_ : (Topology.head slots root side).isSome = true := by
        rw [h.head_eq]
        cases list : lanes side with
        | nil => exact absurd list phased.1
        | cons x xs => rfl
      dsimp only
      rw [if_pos some_, due_]
      have view := State.claim_view (slots root).state
      refine .inr ⟨(slots root).state.claim, rfl, rfl, phased.1, by rw [view], ?_, ?_, ?_⟩
      · rw [view]
        have active := Lane.eq_flip phased.2.symm
        exact active
      · unfold due
        rw [view]
        dsimp only
        rw [paused]
        rfl
      · refine h.restate out ?_ (by rw [view]) ?_ h.held
        · unfold Phased
          rw [view]
          dsimp only
          rw [paused]
          exact phased
        · rw [view]
          exact h.shut
    | none =>
      rw [paused] at phased
      have due_ : due (slots root).state = (slots root).state.active := by
        unfold due
        rw [paused]
        rfl
      unfold Topology.begin.start
      dsimp only
      rw [h.head_eq, due_]
      cases list : lanes (slots root).state.active with
      | nil =>
        exact .inl ⟨rfl, .inr rfl⟩
      | cons x xs =>
        right
        rw [if_neg (by simp)]
        have view : ((((slots root).state.setActive (slots root).state.active.flip).setPaused
            (some (slots root).state.active)).claim).view =
            { (slots root).state.view with
              active := (slots root).state.active.flip
              paused := some (slots root).state.active
              draining := true } := by
          rw [State.claim_view, State.setPaused_view, State.setActive_view]
        refine ⟨_, rfl, rfl, List.cons_ne_nil _ _, by rw [view], by rw [view], ?_, ?_⟩
        · unfold due
          rw [view]
          rfl
        · refine h.restate out ?_ (by rw [view]) ?_ h.held
          · unfold Phased
            rw [view]
            dsimp only
            rw [list]
            exact ⟨List.cons_ne_nil _ _, (Lane.flip_ne _).symm⟩
          · rw [view]
            exact h.shut

theorem finish (out : root ∉ mine) :
    Rooted (Topology.finish slots root) root mine closed lanes stamps clock := by
  have view := State.finish_view (slots root).state
  refine h.restate out (h.phased.of_view ?_ ?_) ?_ ?_ h.held
  · show (slots root).state.finish.view.paused = _
    rw [view]
  · show (slots root).state.finish.view.active = _
    rw [view]
  · show (slots root).state.finish.view.count = _
    rw [view]
  · show (slots root).state.finish.view.closed = _
    rw [view]
    exact h.shut

theorem close (out : root ∉ mine) (some : mine ≠ []) :
    Rooted (Topology.setState slots root (slots root).state.close) root mine true lanes stamps
      clock := by
  have view := State.close_view (slots root).state
  refine h.restate out ?_ (by rw [view]) (by rw [view]) (fun _ => some)
  have phased := h.phased
  unfold Phased at phased ⊢
  rw [view]
  exact phased

theorem peek_eq (epochs : Epochs G) :
    Topology.peek epochs slots root =
      (lanes (due (slots root).state)).head?.map fun x => ((slots x).record epochs).local_ := by
  have phased := h.phased
  unfold Phased at phased
  have shown : ∀ side, Topology.peekSide epochs slots root side =
      (lanes side).head?.map fun x => ((slots x).record epochs).local_ := by
    intro side
    unfold Topology.peekSide
    rw [h.head_eq]
  unfold Topology.peek Topology.state due
  rw [paused_eq]
  cases paused : (slots root).state.view.paused with
  | none =>
    dsimp only [Option.bind, Option.getD]
    exact shown _
  | some side =>
    rw [paused] at phased
    dsimp only [Option.bind, Option.getD]
    rw [shown]
    cases list : lanes side with
    | nil => exact absurd list phased.1
    | cons x xs => rfl

end

theorem new {cell : Cell G} (self : slots root = (cell.overwrite (0, 0, 0)).setKind .topology) :
    Rooted slots root [] false (fun _ => []) stamps clock := by
  refine ⟨⟨?_, fun _ => List.nodup_nil, (fun _ _ no => nomatch no), ?_⟩, ?_, ?_, ?_, nofun,
    fun _ => List.Pairwise.nil, fun _ _ no => nomatch no⟩
  · intro side
    have zero : Link.fromWord 0 = ⟨none, none⟩ := by decide
    rw [self]
    cases side <;> exact zero
  · intro side x
    exact iff_of_false (nomatch ·) (fun both => nomatch both.1)
  · rw [self]
    show Phased (0#64) _
    unfold Phased
    have none : (State.view 0#64).paused = Option.none := by decide
    rw [none]
  · rw [self]
    show (State.view 0#64).count = 0
    decide
  · rw [self]
    show (State.view 0#64).closed = false
    decide

end Rooted

end Dope.Core.Ready.Arena
